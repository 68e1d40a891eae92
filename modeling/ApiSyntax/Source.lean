/-
  ApiSyntax/Source.lean --- positions in a source text, and its lines.

  A position counts the newlines, the characters since the last newline and the
  characters in front of it.  `Span.advance` is the only way a position moves, so
  a position reached over some text is a function of that text alone.  `lines`
  is the display cut of the same text, used when a line is quoted.
-/
set_option autoImplicit false

namespace ApiSyntax

/-! ## Positions -/

/-- A position: `line` newlines and `offset` characters stand before it, `column`
of them after the last newline. -/
structure Span where
  line : Nat
  column : Nat
  offset : Nat
deriving DecidableEq, Repr, Inhabited

namespace Span

/-- The position in front of every character. -/
def start : Span := ⟨0, 0, 0⟩

/-- The position behind the character `c`, when `c` stands at `s`. -/
def step (s : Span) (c : Char) : Span :=
  if c = '\n' then ⟨s.line + 1, 0, s.offset + 1⟩ else ⟨s.line, s.column + 1, s.offset + 1⟩

/-- The position behind `text`, when `text` starts at `s`. -/
def advance (s : Span) (text : List Char) : Span := text.foldl step s

/-- People read positions as `line:column`, both counted from one. -/
def text (s : Span) : String := toString (s.line + 1) ++ ":" ++ toString (s.column + 1)

@[simp] theorem advance_nil (s : Span) : s.advance [] = s := rfl

@[simp] theorem advance_cons (s : Span) (c : Char) (cs : List Char) :
    s.advance (c :: cs) = (s.step c).advance cs := rfl

theorem advance_append (s : Span) (a b : List Char) :
    s.advance (a ++ b) = (s.advance a).advance b := by
  simp [advance, List.foldl_append]

theorem step_offset (s : Span) (c : Char) : (s.step c).offset = s.offset + 1 := by
  unfold step; split <;> rfl

theorem advance_offset (s : Span) (cs : List Char) :
    (s.advance cs).offset = s.offset + cs.length := by
  induction cs generalizing s with
  | nil => rfl
  | cons c cs ih => rw [advance_cons, ih, step_offset, List.length_cons]; omega

end Span

/-! ## Lines -/

/-- The carriage return in front of a newline belongs to the line end. -/
def dropReturn (line : List Char) : List Char :=
  if line.getLast? = some '\r' then line.dropLast else line

/-- The lines of a text without their ends.  `held` is the line read so far,
latest character first.  A text that ends in a newline has no empty last line. -/
def linesFrom (held : List Char) : List Char → List (List Char)
  | [] => if held.isEmpty then [] else [held.reverse]
  | c :: rest =>
      if c = '\n' then dropReturn held.reverse :: linesFrom [] rest
      else linesFrom (c :: held) rest

/-- The lines of a text, first line first. -/
def lines (text : List Char) : List (List Char) := linesFrom [] text

/-- Line number `n` of a text, counted from zero; past the last line it is empty. -/
def lineAt (text : List Char) (n : Nat) : List Char := ((lines text)[n]?).getD []

end ApiSyntax
