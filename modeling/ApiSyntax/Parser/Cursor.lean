/-
  ApiSyntax/Parser/Cursor.lean --- a place in a sequence of tokens.

  A cursor stands between the tokens already consumed and those that remain.  Pushing
  tokens back means standing before them again: the ones just consumed if they agree,
  else new ones put in at that place.
-/
import ApiSyntax.Diagnostic

set_option autoImplicit false

namespace ApiSyntax

/-- The tokens already consumed, latest first, and those that remain. -/
structure Cursor where
  consumed : List Token
  rest : List Token
deriving Repr, Inhabited

namespace Cursor

/-- The place in front of all tokens. -/
def start (tokens : List Token) : Cursor := ⟨[], tokens⟩

/-- The number of tokens already consumed. -/
def index (c : Cursor) : Nat := c.consumed.length

/-- Tokens remain. -/
def hasMore (c : Cursor) : Bool := !c.rest.isEmpty

/-- A count that a caller gives is a machine word. -/
instance : Coe Nat UInt64 := ⟨.ofNat⟩

/-- The token `n` places ahead.  The places are counted from the first token in machine words, so
the sum wraps around: with a count near the greatest one it is the place of a token already
consumed. -/
def peekNth (c : Cursor) (n : UInt64) : Except Diagnostic Token :=
  match (c.consumed.reverse ++ c.rest)[(.ofNat c.index + n : UInt64).toNat]? with
  | some t => .ok t
  | none => .error .outOfTokens

/-- The next token. -/
def peek (c : Cursor) : Except Diagnostic Token :=
  match c.rest with
  | t :: _ => .ok t
  | [] => .error .outOfTokens

/-- The next token is of this kind. -/
def check (c : Cursor) (kind : TokenKind) : Bool := c.rest.head?.any (·.is kind)

/-- The next token is of this kind and reads `value`. -/
def checkValue (c : Cursor) (kind : TokenKind) (value : String) : Bool :=
  c.rest.head?.any (·.isValue kind value)

/-- The next token is this keyword. -/
def checkKeyword (c : Cursor) (word : String) : Bool := c.checkValue .keyword word

/-- The next token, and the place behind it. -/
def consume (c : Cursor) : Except Diagnostic (Token × Cursor) :=
  match c.rest with
  | t :: rest => .ok (t, ⟨t :: c.consumed, rest⟩)
  | [] => .error .outOfTokens

/-- The tokens stand ahead again.  If they agree with the ones just consumed, those are the ones
that stand ahead. -/
def rewind (c : Cursor) (tokens : List Token) : Cursor :=
  let last := (c.consumed.take tokens.length).reverse
  if Token.agreeAll last tokens then ⟨c.consumed.drop tokens.length, last ++ c.rest⟩
  else ⟨c.consumed, tokens ++ c.rest⟩

/-- The position behind a token, as if its text had no newline. -/
def behind (t : Token) : Span :=
  ⟨t.span.line, t.span.column + t.value.length, t.span.offset + t.value.length⟩

/-- The token that a node made here starts at: the next one, or an empty mark behind the last
one. -/
def startToken (c : Cursor) : Token :=
  match c.rest with
  | t :: _ => t
  | [] => ⟨.custom "EndOfInput", "", (c.consumed.head?.map behind).getD .start⟩

/-- The place as a machine word, where the sum fits in one. -/
theorem toNat_add_of_fits {i : Nat} {n : UInt64} (h : i + n.toNat < UInt64.size) :
    (.ofNat i + n : UInt64).toNat = i + n.toNat := by
  rw [UInt64.toNat_add, UInt64.toNat_ofNat', Nat.mod_add_mod]
  exact Nat.mod_eq_of_lt h

/-- A sum that does not fit leads back by the size of a word. -/
theorem toNat_add_of_overflow {i : Nat} {n : UInt64} (hi : i < UInt64.size)
    (h : UInt64.size ≤ i + n.toNat) :
    (.ofNat i + n : UInt64).toNat = i + n.toNat - UInt64.size := by
  have hn := n.toNat_lt_size
  rw [UInt64.toNat_add, UInt64.toNat_ofNat', Nat.mod_add_mod, Nat.mod_eq_sub_mod h]
  exact Nat.mod_eq_of_lt (by omega)

/-- Where the sum fits, the token ahead is counted in the tokens that remain. -/
theorem peekNth_of_fits {c : Cursor} {n : UInt64} (h : c.index + n.toNat < UInt64.size) :
    c.peekNth n = c.rest[n.toNat]?.elim (.error .outOfTokens) .ok := by
  have hplace : (c.consumed.reverse ++ c.rest)[(.ofNat c.index + n : UInt64).toNat]? =
      c.rest[n.toNat]? := by
    rw [toNat_add_of_fits h, List.getElem?_append_right]
    · rw [List.length_reverse, index, Nat.add_sub_cancel_left]
    · rw [List.length_reverse]
      exact Nat.le_add_right _ _
  rw [peekNth, hplace]
  cases c.rest[n.toNat]? <;> rfl

/-- The next token is the one no place ahead. -/
theorem peek_eq_peekNth {c : Cursor} (h : c.index < UInt64.size) : c.peek = c.peekNth 0 := by
  rw [peekNth_of_fits (by simpa using h), peek]
  cases c.rest <;> rfl

theorem consume_rest {c c' : Cursor} {t : Token} (h : c.consume = .ok (t, c')) :
    c.rest = t :: c'.rest := by
  unfold consume at h
  split at h
  · next heq =>
    cases h
    exact heq
  · cases h

end Cursor

end ApiSyntax
