/-
  ApiSyntax/Grammar/Basic.lean --- the grammar, closed.

  `step` says what each production reads, given a function that reads the others;
  `readN` ties the knot on a bound.  Between two nested productions that consume
  nothing there is at most one more, so four times the number of tokens is enough.
-/
import ApiSyntax.Grammar.Annotation

set_option autoImplicit false

namespace ApiSyntax

namespace Grammar

/-- What a production reads, when nested productions are read by `read`. -/
def step (read : Production → Parser NodeId) : Production → Parser NodeId
  | .identifier => identifier
  | .type => type read
  | .pair => pair read
  | .intLiteral => intLiteral
  | .realLiteral => realLiteral
  | .listLiteral => listLiteral read
  | .constructorCall => constructorCall read
  | .staticCall => staticCall read
  | .instanceCall => instanceCall read
  | .expression => expression read
  | .parenthesized => parenthesized read
  | .unary => unary read
  | .assignment => assignment read
  | .returned => returned read
  | .deferred => deferred read
  | .block => block read
  | .signature => signature read
  | .method => method read
  | .typeDef => typeDef read
  | .within => within
  | .withApis => withApis
  | .api => api read
  | .program => program read
  | .annotationCall => annotationCall read

/-- A production, with nested productions at most `depth` deep. -/
def readN : Nat → Production → Parser NodeId
  | 0, _ => Parser.exhausted
  | depth + 1, p => step (readN depth) p

end Grammar

/-- A bound on how deep productions nest over `n` tokens. -/
def Production.depth (n : Nat) : Nat := 4 * n + 8

/-- A step that is given a reader for nested productions. -/
def Parser.grammar {α : Type} (p : (Production → Parser NodeId) → Parser α) : Parser α :=
  fun env s => p (Grammar.readN (Production.depth s.cursor.rest.length)) env s

/-- A production, read from the tokens ahead. -/
def Production.parse (p : Production) : Parser NodeId := Parser.grammar fun read => read p

/-- A production as a rule. -/
def Production.rule (p : Production) : Rule := p.ruleOf Production.parse

/-! ## Whole inputs -/

/-- What a whole input may be read as. -/
inductive Goal
  | program
  | expression
  | type
deriving DecidableEq, Repr, Inhabited

/-- The word for a goal. -/
def Goal.name : Goal → String
  | program => "program"
  | expression => "expression"
  | type => "type"

/-- The goal of a word. -/
def Goal.ofName? (name : String) : Option Goal :=
  [program, expression, type].find? fun g => g.name == name

/-- The whole input, read as one thing.  A program reads to the end by itself; behind the others
nothing may stand. -/
def Goal.parse : Goal → Parser NodeId
  | program => Production.program.parse
  | expression => do
      let id ← Production.expression.parse
      Parser.expectEnd
      return id
  | type => do
      let id ← Production.type.parse
      Parser.expectEnd
      return id

end ApiSyntax
