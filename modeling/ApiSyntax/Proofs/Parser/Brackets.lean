/-
  ApiSyntax/Proofs/Parser/Brackets.lean --- brackets, and how far a run has come.

  Parentheses, brackets and braces are counted alike: a token opens, closes, or does neither.
  What stands between a bracket and the one that closes it has an end that no rule looks past.
  A level says where a place is relative to the first bracket that was opened, and a mark adds
  whether any token was passed at all.
-/
import ApiSyntax.Proofs.Parser.Steps

set_option autoImplicit false

namespace ApiSyntax

/-! ## Brackets -/

/-- What a token does to the number of open brackets. -/
inductive Bracket
  | opening
  | closing
  | none
deriving DecidableEq, Repr, Inhabited

/-- What a token of a category of this name does. -/
def Bracket.ofName (name : String) : Bracket :=
  if name ∈ ["LParen", "LBracket", "LBrace"] then opening
  else if name ∈ ["RParen", "RBracket", "RBrace"] then closing
  else none

/-- What a token of this category does. -/
def TokenKind.bracket : TokenKind → Bracket
  | lparen | lbracket | lbrace => .opening
  | rparen | rbracket | rbrace => .closing
  | custom name => .ofName name
  | _ => .none

theorem TokenKind.bracket_eq (kind : TokenKind) : kind.bracket = .ofName kind.name := by
  cases kind with
  | custom name => rfl
  | _ => decide

/-- What the token does. -/
def Token.bracket (t : Token) : Bracket := t.kind.bracket

theorem Token.bracket_of_is {t : Token} {kind : TokenKind} (h : t.is kind) :
    t.bracket = kind.bracket := by
  rw [bracket, TokenKind.bracket_eq, TokenKind.bracket_eq, (TokenKind.same_iff _ _).mp h]

/-! ## Levels -/

/-- Where a place is, seen from the first bracket behind the start. -/
inductive Level
  /-- No bracket has been opened yet. -/
  | ahead
  /-- The first bracket is open, and `depth` more. -/
  | inside (depth : Nat)
  /-- The first bracket has been closed. -/
  | behind
  /-- Nothing is known. -/
  | lost
deriving DecidableEq, Repr, Inhabited

namespace Level

def opened : Level → Level
  | ahead => inside 0
  | inside depth => inside (depth + 1)
  | behind => behind
  | lost => lost

def closed : Level → Level
  | inside 0 => behind
  | inside (depth + 1) => inside depth
  | behind => behind
  | _ => lost

/-- The level behind a token. -/
def turn (l : Level) : Bracket → Level
  | .opening => l.opened
  | .closing => l.closed
  | .none => l

/-- The level behind tokens. -/
def after (l : Level) (ts : List Token) : Level := ts.foldl (fun l t => l.turn t.bracket) l

@[simp] theorem after_nil (l : Level) : l.after [] = l := rfl

@[simp] theorem after_cons (l : Level) (t : Token) (ts : List Token) :
    l.after (t :: ts) = (l.turn t.bracket).after ts := rfl

@[simp] theorem after_append (l : Level) (ts us : List Token) :
    l.after (ts ++ us) = (l.after ts).after us := List.foldl_append

/-- The closing bracket is still to come, so a token stands ahead. -/
def Peeks : Level → Prop
  | ahead | inside _ => True
  | _ => False

/-- A token that does not close a bracket leaves the closing bracket ahead. -/
theorem Peeks.turn {l : Level} (h : l.Peeks) {b : Bracket} (hb : b ≠ .closing) :
    (l.turn b).Peeks := by
  cases b with
  | opening => cases l <;> trivial
  | closing => exact absurd rfl hb
  | none => exact h

/-- Where the bracket is closed later a token stands ahead. -/
theorem Peeks.exists_cons {l : Level} {seg : List Token} (h : l.Peeks)
    (hbehind : l.after seg = .behind) : ∃ t rest, seg = t :: rest := by
  cases seg with
  | nil =>
    rw [after_nil] at hbehind
    subst hbehind
    exact h.elim
  | cons t rest => exact ⟨t, rest, rfl⟩

end Level

/-! ## Marks -/

/-- A level, and whether a token was passed. -/
structure Mark where
  level : Level
  moved : Bool
deriving DecidableEq, Repr, Inhabited

namespace Mark

/-- Ahead of all brackets. -/
abbrev ahead : Mark := ⟨.ahead, false⟩

/-- Between brackets. -/
abbrev inside (depth : Nat) (moved : Bool) : Mark := ⟨.inside depth, moved⟩

/-- Nothing is known. -/
abbrev lost : Mark := ⟨.lost, false⟩

/-- The closing bracket is still to come. -/
def Peeks (m : Mark) : Prop := m.level.Peeks

theorem peeks_ahead : ahead.Peeks := trivial

theorem peeks_inside {depth : Nat} {moved : Bool} : (inside depth moved).Peeks := trivial

/-- The mark behind a token. -/
def turn (m : Mark) (b : Bracket) : Mark := ⟨m.level.turn b, true⟩

/-- The mark behind a token that is no bracket. -/
def past (m : Mark) : Mark := m.turn .none

/-- The mark behind brackets and what stands between them. -/
def enclosed (m : Mark) : Mark := (m.turn .opening).turn .closing

/-- Behind an opening bracket a place is between brackets. -/
theorem Peeks.turn_opening {m : Mark} (h : m.Peeks) :
    ∃ depth, m.turn .opening = inside depth true := by
  obtain ⟨l, moved⟩ := m
  cases l with
  | ahead => exact ⟨0, rfl⟩
  | inside depth => exact ⟨depth + 1, rfl⟩
  | behind | lost => exact h.elim

/-- Less is known by the first mark. -/
structure Le (m m' : Mark) : Prop where
  level : m.level = .lost ∨ m.level = m'.level
  moved : m.moved → m'.moved

instance : LE Mark := ⟨Le⟩

theorem le_refl (m : Mark) : m ≤ m := ⟨.inr rfl, id⟩

theorem lost_le (m : Mark) : lost ≤ m := ⟨.inl rfl, fun h => nomatch h⟩

end Mark

end ApiSyntax
