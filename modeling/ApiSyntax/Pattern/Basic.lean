/-
  ApiSyntax/Pattern/Basic.lean --- patterns and the text that they match.

  A pattern is matched by following all its alternatives at once, in the order in
  which they are preferred.  What is left to match on one alternative is a stack of
  patterns; at each place of the text every stack is looked at once, so a repetition
  of something that may be empty comes to an end.  The match that counts is the one
  of the most preferred alternative, not the longest one.
-/
import ApiSyntax.Text.Word

set_option autoImplicit false

namespace ApiSyntax

/-! ## Sets of characters -/

/-- A set of characters. -/
inductive CharSet
  /-- The characters between the ends of some pair, both ends included. -/
  | ranges (pairs : List (Char × Char))
  /-- Decimal digits in any script. -/
  | digit
  /-- Blanks in any script. -/
  | blank
  /-- Word characters in any script. -/
  | word
  | complement (set : CharSet)
  | union (a b : CharSet)
  | intersection (a b : CharSet)
deriving DecidableEq, Repr, Inhabited

namespace CharSet

/-- The character belongs to the set. -/
def has : CharSet → Char → Bool
  | ranges pairs, c => pairs.any fun p => p.1 ≤ c && c ≤ p.2
  | digit, c => isDecimalDigit c
  | blank, c => isBlank c
  | word, c => isWordChar c
  | complement set, c => !set.has c
  | union a b, c => a.has c || b.has c
  | intersection a b, c => a.has c && b.has c

/-- The set of one character. -/
def single (c : Char) : CharSet := ranges [(c, c)]

/-- The set without characters. -/
def nothing : CharSet := ranges []

/-- The set of some characters. -/
def oneOf (cs : List Char) : CharSet := ranges (cs.map fun c => (c, c))

/-- The characters of either set; ranges stay ranges. -/
def join : CharSet → CharSet → CharSet
  | ranges a, ranges b => ranges (a ++ b)
  | a, b => union a b

/-- The characters of the first set that are not in the second. -/
def difference (a b : CharSet) : CharSet := intersection a (complement b)

/-- The characters of exactly one of the sets. -/
def symmetricDifference (a b : CharSet) : CharSet := union (difference a b) (difference b a)

@[simp] theorem has_single (c d : Char) : (single c).has d = decide (d = c) := by
  simp only [single, has, List.any_cons, List.any_nil, Bool.or_false]
  rw [Bool.eq_iff_iff]
  simp only [Bool.and_eq_true, decide_eq_true_eq]
  exact ⟨fun h => Char.le_antisymm h.2 h.1, fun h => by subst h; exact ⟨Char.le_refl _, Char.le_refl _⟩⟩

@[simp] theorem has_join (a b : CharSet) (c : Char) : (a.join b).has c = (a.has c || b.has c) := by
  unfold join
  split
  · simp [has]
  · rfl

end CharSet

/-! ## Places -/

/-- A property of the place between two characters. -/
inductive Place
  | textStart
  | textEnd
  | lineStart
  | lineEnd
  | wordBoundary
  | notWordBoundary
  | wordStart
  | wordEnd
  | beforeNoWord
  | afterNoWord
deriving DecidableEq, Repr, Inhabited

/-- The place has the property, between the characters `before` and `after`. -/
def Place.holds (before after : Option Char) : Place → Bool
  | textStart => before.isNone
  | textEnd => after.isNone
  | lineStart => before.isNone || before == some '\n'
  | lineEnd => after.isNone || after == some '\n'
  | wordBoundary => isWordAt before != isWordAt after
  | notWordBoundary => isWordAt before == isWordAt after
  | wordStart => !isWordAt before && isWordAt after
  | wordEnd => isWordAt before && !isWordAt after
  | beforeNoWord => !isWordAt before
  | afterNoWord => !isWordAt after

/-! ## Patterns -/

/-- A pattern. -/
inductive Pattern
  /-- Matches the empty text. -/
  | empty
  /-- Matches one character of the set. -/
  | char (set : CharSet)
  /-- Matches the empty text at a place with the property. -/
  | place (p : Place)
  /-- Matches what the first matches, then what the second matches. -/
  | seq (a b : Pattern)
  /-- Matches what either matches, the first preferred. -/
  | alt (a b : Pattern)
  /-- Matches one or more times; greedy repetition prefers more. -/
  | plus (p : Pattern) (greedy : Bool)
  /-- The place behind one round of a repetition: another round, or the end. -/
  | again (p : Pattern) (greedy : Bool)
  /-- Matches exactly `n` times. -/
  | times (n : Nat) (p : Pattern)
  /-- Matches at most `n` times; greedy repetition prefers more. -/
  | upTo (n : Nat) (p : Pattern) (greedy : Bool)
deriving DecidableEq, Repr, Inhabited

namespace Pattern

/-- One pattern after another. -/
def inOrder : List Pattern → Pattern
  | [] => empty
  | [p] => p
  | p :: rest => seq p (inOrder rest)

/-- One of several patterns, earlier ones preferred. -/
def firstOf : List Pattern → Pattern
  | [] => empty
  | [p] => p
  | p :: rest => alt p (firstOf rest)

/-- The text itself. -/
def literal (text : List Char) : Pattern := inOrder (text.map fun c => char (.single c))

/-- The pattern or nothing. -/
def option (p : Pattern) (greedy : Bool) : Pattern :=
  if greedy then alt p empty else alt empty p

/-- The pattern any number of times.  No round at all is chosen before the first round only. -/
def star (p : Pattern) (greedy : Bool) : Pattern := option (plus p greedy) greedy

/-- The pattern at least `n` times. -/
def atLeast (n : Nat) (p : Pattern) (greedy : Bool) : Pattern :=
  match n with
  | 0 => star p greedy
  | 1 => plus p greedy
  | n + 2 => seq (times (n + 1) p) (plus p greedy)

/-- The pattern at least `n` and at most `m` times. -/
def between (n m : Nat) (p : Pattern) (greedy : Bool) : Pattern :=
  if m ≤ n then times n p else seq (times n p) (upTo (m - n) p greedy)

/-- The number of characters and branches of the pattern with every counted repetition written
out. -/
def unrolledSize : Pattern → Nat
  | empty => 0
  | char _ => 1
  | place _ => 1
  | seq a b => a.unrolledSize + b.unrolledSize
  | alt a b => a.unrolledSize + b.unrolledSize + 1
  | plus p _ => p.unrolledSize + 1
  | again p _ => p.unrolledSize + 1
  | times n p => n * p.unrolledSize
  | upTo n p _ => n * (p.unrolledSize + 1)

/-- A bound on the steps that a stack takes before it reads a character: no stack is looked at
twice at one place, and these are all the stacks there are. -/
def depth : Pattern → Nat
  | empty => 1
  | char _ => 1
  | place _ => 1
  | seq a b => a.depth + b.depth + 1
  | alt a b => a.depth + b.depth + 1
  | plus p _ => 2 * p.depth + 2
  | again p _ => 2 * p.depth + 2
  | times n p => n * (p.depth + 1) + 1
  | upTo n p _ => n * (p.depth + 1) + 1

/-- The pattern matches only at the start of the text. -/
def isAnchored : Pattern → Bool
  | place .textStart => true
  | seq a _ => a.isAnchored
  | alt a b => a.isAnchored && b.isAnchored
  | plus p _ => p.isAnchored
  | _ => false

/-! ## Following the alternatives -/

/-- What is left to match on one alternative. -/
abbrev Stack := List Pattern

/-- The alternatives at one place: the stacks already looked at, those that wait for a character
(latest first), and whether one of them has matched.  Behind a match no less preferred
alternative is looked at. -/
structure Front where
  seen : List Stack
  waiting : List (CharSet × Stack)
  matched : Bool
deriving DecidableEq, Repr, Inhabited

/-- A stack is followed until its alternatives wait for a character or match. -/
def follow (before after : Option Char) : Nat → Stack → Front → Front
  | 0, _, f => f
  | fuel + 1, stack, f =>
      if f.matched || f.seen.contains stack then f
      else
        let f := { f with seen := stack :: f.seen }
        match stack with
        | [] => { f with matched := true }
        | empty :: rest => follow before after fuel rest f
        | char set :: rest => { f with waiting := (set, rest) :: f.waiting }
        | place p :: rest => if p.holds before after then follow before after fuel rest f else f
        | seq a b :: rest => follow before after fuel (a :: b :: rest) f
        | alt a b :: rest =>
            follow before after fuel (b :: rest) (follow before after fuel (a :: rest) f)
        | plus p greedy :: rest => follow before after fuel (p :: again p greedy :: rest) f
        | again p greedy :: rest =>
            let round := p :: again p greedy :: rest
            if greedy then
              follow before after fuel rest (follow before after fuel round f)
            else follow before after fuel round (follow before after fuel rest f)
        | times 0 _ :: rest => follow before after fuel rest f
        | times (n + 1) p :: rest => follow before after fuel (p :: times n p :: rest) f
        | upTo 0 _ _ :: rest => follow before after fuel rest f
        | upTo (n + 1) p greedy :: rest =>
            let round := p :: upTo n p greedy :: rest
            if greedy then
              follow before after fuel rest (follow before after fuel round f)
            else follow before after fuel round (follow before after fuel rest f)

/-- All stacks at one place, the most preferred first. -/
def front (before after : Option Char) (fuel : Nat) (pending : List Stack) : Front :=
  pending.foldl (fun f stack => follow before after fuel stack f) ⟨[], [], false⟩

/-- The stacks behind the character `c`, the most preferred first. -/
def Front.read (f : Front) (c : Char) : List Stack :=
  f.waiting.reverse.filterMap fun w => if w.1.has c then some w.2 else none

/-- The end of the preferred match, given the character before the place, the text behind it,
the number of characters before it, the stacks to follow and the end found so far.  A pattern
that is not anchored starts anew at each place, less preferred, until something has matched.  No
stack is followed further than `fuel` steps. -/
def endFrom (p : Pattern) (fuel : Nat) (before : Option Char) :
    List Char → Nat → List Stack → Option Nat → Option Nat
  | rest, position, pending, found =>
    let starting := found.isNone && (position == 0 || !p.isAnchored)
    let f := front before rest.head? fuel (if starting then pending ++ [[p]] else pending)
    let found := if f.matched then some position else found
    match rest with
    | [] => found
    | c :: rest =>
        if f.waiting.isEmpty && (found.isSome || p.isAnchored) then found
        else endFrom p fuel (some c) rest (position + 1) (f.read c) found

/-- The number of characters before the end of the preferred match in a text; the earliest match
is preferred to all later ones. -/
def matchEnd (p : Pattern) (text : List Char) : Option Nat :=
  endFrom p (p.depth + 1) none text 0 [] none

end Pattern

end ApiSyntax
