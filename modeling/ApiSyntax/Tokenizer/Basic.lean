/-
  ApiSyntax/Tokenizer/Basic.lean --- cutting a text into tokens.

  A tokenizer is an ordered list of categories; at each place the first category with
  a match that is not empty cuts off a segment.  `cut` knows nothing of positions:
  it gives the segments and the text that no category takes.  Positions and tokens
  are read off the segments afterwards.

  All of this is over any engine for patterns.  Where none is named, the patterns are
  those of `Pattern`.
-/
import ApiSyntax.Journaled
import ApiSyntax.Pattern.Basic
import ApiSyntax.Pattern.Engine

set_option autoImplicit false

namespace ApiSyntax

/-! ## Categories -/

/-- A category: its kind, its pattern as written and as compiled, and whether its matches are
passed over without a token. -/
structure Category (P : Type := Pattern) where
  kind : TokenKind
  source : String
  pattern : P
  discarded : Bool
deriving Repr, Inhabited

namespace Category

variable {P : Type}

/-- The text that is compiled for a pattern: the pattern as written, in a group at the start of
the text. -/
def anchoredText (source : String) : List Char := '^' :: Engine.grouped source.toList

/-- The category of a kind and a written pattern. -/
def ofText [Engine P] (kind : TokenKind) (source : String) : Except Diagnostic (Category P) :=
  match Engine.compile (anchoredText source) with
  | .ok pattern => .ok ⟨kind, source, pattern, false⟩
  | .error reason => .error (.of (.invalidPattern kind.name reason))

/-- The category with its matches passed over. -/
def discard (c : Category P) : Category P := { c with discarded := true }

/-- The length of the match at the front of a text; empty matches do not count. -/
def matchLength [Engine P] (c : Category P) (text : List Char) : Option Nat :=
  (Engine.matchEnd c.pattern text).filter (0 < ·)

end Category

/-! ## Tokenizers -/

/-- Categories in the order of their priority. -/
structure Tokenizer (P : Type := Pattern) where
  categories : List (Category P)
deriving Repr, Inhabited

/-- A piece of a text with the category that took it. -/
structure Segment (P : Type := Pattern) where
  category : Category P
  text : List Char
deriving Repr, Inhabited

namespace Tokenizer

variable {P : Type}

/-- The tokenizer that takes nothing. -/
def empty : Tokenizer P := ⟨[]⟩

/-- The place of a kind among the categories. -/
def positionOf (t : Tokenizer P) (kind : TokenKind) : Option Nat :=
  t.categories.findIdx? fun c => c.kind.same kind

/-- A category is added at a place, or at the end when there are fewer.  Its name must be new. -/
def insertAt (t : Tokenizer P) (c : Category P) (index : Nat) : Except Diagnostic (Tokenizer P) :=
  if (t.positionOf c.kind).isSome then .error (.of (.duplicateLexicalCategory c.kind.name))
  else .ok ⟨t.categories.insertIdx (min index t.categories.length) c⟩

/-- A category is added with the least priority. -/
def push (t : Tokenizer P) (c : Category P) : Except Diagnostic (Tokenizer P) :=
  t.insertAt c t.categories.length

/-- A category is added directly ahead of another one.  That its name is new is looked at
before the other one is searched. -/
def insertBefore (t : Tokenizer P) (c : Category P) (anchor : TokenKind) :
    Except Diagnostic (Tokenizer P) :=
  if (t.positionOf c.kind).isSome then .error (.of (.duplicateLexicalCategory c.kind.name))
  else
    match t.positionOf anchor with
    | some index => t.insertAt c index
    | none => .error (.of (.unknownLexicalCategory anchor.name))

/-! ## Cutting -/

/-- The first category with a match at the front of a text, and the length of that match. -/
def first? [Engine P] (t : Tokenizer P) (text : List Char) : Option (Category P × Nat) :=
  t.categories.findSome? fun c => (c.matchLength text).map (c, ·)

/-- The segments of a text, at most `fuel` of them, and what is left. -/
def cutN [Engine P] (t : Tokenizer P) : Nat → List Char → List (Segment P) × List Char
  | 0, text => ([], text)
  | fuel + 1, text =>
      if text.isEmpty then ([], [])
      else
        match t.first? text with
        | some (c, n) =>
            let (segments, left) := t.cutN fuel (text.drop n)
            (⟨c, text.take n⟩ :: segments, left)
        | none => ([], text)

/-- The segments of a text, and what is left where no category has a match.  A segment has a
character, so there are no more segments than characters. -/
def cut [Engine P] (t : Tokenizer P) (text : List Char) : List (Segment P) × List Char :=
  t.cutN text.length text

/-- The tokens of consecutive segments, of which the first starts at `s`. -/
def tokensFrom (s : Span) : List (Segment P) → List Token
  | [] => []
  | segment :: rest =>
      let behind := tokensFrom (s.advance segment.text) rest
      if segment.category.discarded then behind
      else ⟨segment.category.kind, String.ofList segment.text, s⟩ :: behind

/-- The position behind consecutive segments, of which the first starts at `s`. -/
def endOf (s : Span) (segments : List (Segment P)) : Span :=
  segments.foldl (fun s segment => s.advance segment.text) s

/-- The longest text that a lexical error quotes. -/
def fragmentLimit : Nat := 16

/-- The word at the front of a text, or the one blank there. -/
def fragment (text : List Char) : List Char :=
  let word := (text.takeWhile fun c => !isBlank c).take fragmentLimit
  if word.isEmpty then text.take 1 else word

/-- The tokens of a text, and the position behind it. -/
def tokenizeWithEnd [Engine P] (t : Tokenizer P) (text : List Char) :
    Except Diagnostic (List Token × Span) :=
  let (segments, left) := t.cut text
  let behind := endOf .start segments
  if left.isEmpty then .ok (tokensFrom .start segments, behind)
  else .error ((Diagnostic.of (.lexicalError (String.ofList (fragment left)))).placed behind)

/-- The tokens of a text. -/
def tokenize [Engine P] (t : Tokenizer P) (text : List Char) : Except Diagnostic (List Token) :=
  (t.tokenizeWithEnd text).map (·.1)

/-! ## With events -/

/-- `insertAt`, recorded. -/
def recordInsertAt (c : Category P) (index : Nat) : Action (Journaled (Tokenizer P)) Diagnostic Unit :=
  Journaled.change (·.insertAt c index) fun t =>
    .categoryInserted c.kind.name (min index t.categories.length)

/-- `push`, recorded. -/
def recordPush (c : Category P) : Action (Journaled (Tokenizer P)) Diagnostic Unit :=
  Journaled.change (·.push c) fun t => .categoryInserted c.kind.name t.categories.length

/-- `insertBefore`, recorded. -/
def recordInsertBefore (c : Category P) (anchor : TokenKind) :
    Action (Journaled (Tokenizer P)) Diagnostic Unit :=
  Journaled.change (·.insertBefore c anchor) fun t =>
    .categoryInserted c.kind.name ((t.positionOf anchor).getD 0)

/-- `tokenizeWithEnd`, recorded. -/
def recordTokenize [Engine P] (text : List Char) :
    Action (Journaled (Tokenizer P)) Diagnostic (List Token × Span) :=
  Journaled.ask (·.tokenizeWithEnd text) fun r => .tokenized r.2.offset r.1.length

/-! ## First facts -/

theorem endOf_eq_advance (s : Span) (segments : List (Segment P)) :
    endOf s segments = s.advance (segments.map (·.text)).flatten := by
  induction segments generalizing s with
  | nil => rfl
  | cons segment rest ih =>
    rw [List.map_cons, List.flatten_cons, Span.advance_append, ← ih]
    rfl

/-- Cutting loses nothing and reorders nothing. -/
theorem cutN_flatten [Engine P] (t : Tokenizer P) (fuel : Nat) (text : List Char) :
    ((t.cutN fuel text).1.map (·.text)).flatten ++ (t.cutN fuel text).2 = text := by
  induction fuel generalizing text with
  | zero => rfl
  | succ fuel ih =>
    unfold cutN
    split
    · next h => simp [List.isEmpty_iff.mp h]
    · split
      · next c n _ =>
        simp only [List.map_cons, List.flatten_cons, List.append_assoc, ih]
        exact List.take_append_drop n text
      · rfl

end Tokenizer

end ApiSyntax
