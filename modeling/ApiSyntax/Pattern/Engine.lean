/-
  ApiSyntax/Pattern/Engine.lean --- what the tokenizer asks of an engine for patterns.

  Patterns are compiled and found by a library of their own, and a tokenizer does not look
  into it.  So an engine is a parameter: the type of its compiled patterns, with what it
  answers.  What its documentation promises is named here, each promise by itself, and a
  result says which of them it needs.

  Places in a text are counted in characters.  An end that an engine answers is therefore
  never inside of a character.
-/

set_option autoImplicit false

namespace ApiSyntax

/-- An engine, by its compiled patterns. -/
class Engine (P : Type) where
  /-- The compiled pattern of a written one, or what is wrong with the text. -/
  compile : List Char → Except String P
  /-- The number of characters before the end of the match that is found in a text. -/
  matchEnd : P → List Char → Option Nat

namespace Engine

/-- The text is a written pattern. -/
def Accepts (P : Type) [Engine P] (source : List Char) : Prop :=
  ∃ p : P, compile source = .ok p

/-- A match is found inside the text. -/
class InBounds (P : Type) [Engine P] : Prop where
  matchEnd_le {p : P} {text : List Char} {n : Nat} (h : matchEnd p text = some n) :
    n ≤ text.length

/-- A written pattern in a group that is not numbered. -/
def grouped (source : List Char) : List Char := ['(', '?', ':'] ++ source ++ [')']

/-- What the written patterns of an engine match, and what its documentation says of that.  Only a
text that is a pattern by itself keeps its meaning in a group: another one may close the group. -/
structure Meaning (P : Type) [Engine P] where
  /-- The written pattern matches a piece of text, between the text in front and the text
  behind. -/
  Matches (source front piece behind : List Char) : Prop
  /-- What is found is a match. -/
  found {source text : List Char} {p : P} {n : Nat} (hp : compile source = .ok p)
    (h : matchEnd p text = some n) : ∃ front piece, text.take n = front ++ piece ∧
      Matches source front piece (text.drop n)
  /-- A group matches what the pattern in it matches. -/
  group {source front piece behind : List Char} (hs : Accepts P source)
    (h : Matches (grouped source) front piece behind) : Matches source front piece behind
  /-- A caret holds at the start of the text, and what is behind it goes on from there. -/
  caret {source front piece behind : List Char} (hs : Accepts P source)
    (h : Matches ('^' :: grouped source) front piece behind) :
    front = [] ∧ Matches (grouped source) front piece behind

end Engine

end ApiSyntax
