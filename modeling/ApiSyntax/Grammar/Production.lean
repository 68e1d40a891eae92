/-
  ApiSyntax/Grammar/Production.lean --- the productions of the language, as data.

  A production is a name; what it reads is given elsewhere, over a function that
  reads any production.  Its trigger needs no such function: it looks at no more
  than two tokens.
-/
import ApiSyntax.Parser.Rule

set_option autoImplicit false

namespace ApiSyntax

/-- The productions of the language. -/
inductive Production
  | identifier
  | type
  | pair
  | intLiteral
  | realLiteral
  | listLiteral
  | constructorCall
  | staticCall
  | instanceCall
  | expression
  | parenthesized
  | unary
  | assignment
  | returned
  | deferred
  | block
  | signature
  | method
  | typeDef
  | within
  | withApis
  | api
  | program
  | annotationCall
deriving DecidableEq, Repr, Inhabited

namespace Production

/-- The name of a production in messages. -/
def name : Production → String
  | identifier => "identifier"
  | type => "type"
  | pair => "name/type pair"
  | intLiteral => "integer literal"
  | realLiteral => "real literal"
  | listLiteral => "list literal"
  | constructorCall => "constructor call"
  | staticCall => "static call"
  | instanceCall => "instance call"
  | expression => "expression"
  | parenthesized => "parenthesized expression"
  | unary => "prefix operation"
  | assignment => "assignment"
  | returned => "return statement"
  | deferred => "defer block"
  | block => "block"
  | signature => "signature"
  | method => "method"
  | typeDef => "type declaration"
  | within => "within clause"
  | withApis => "with clause"
  | api => "api declaration"
  | program => "program"
  | annotationCall => "annotation"

/-- The first token is of one of these kinds. -/
def startsWithAny (tokens : List Token) (kinds : List TokenKind) : Except Diagnostic Bool :=
  match tokens with
  | t :: _ => .ok (kinds.any t.is)
  | [] => .error .outOfTokens

/-- The kinds of token that an expression starts with. -/
def expressionStarts : List TokenKind :=
  [.real, .integer, .lbracket, .typeIdentifier, .identifier, .lparen, .operator]

/-- The kinds of token that a type starts with. -/
def typeStarts : List TokenKind := [.typeIdentifier, .lbracket]

/-- Whether a production applies to the tokens ahead. -/
def trigger (p : Production) (tokens : List Token) : Except Diagnostic Bool :=
  match p with
  | identifier => startsWith tokens .identifier
  | type => startsWithAny tokens typeStarts
  | pair => startsWithPair tokens .identifier typeStarts
  | intLiteral => startsWith tokens .integer
  | realLiteral => startsWith tokens .real
  | listLiteral => startsWith tokens .lbracket
  | constructorCall => startsWithPair tokens .typeIdentifier [.lparen]
  | staticCall => startsWithPair tokens .typeIdentifier [.dot]
  | instanceCall => startsWithPair tokens .identifier [.dot]
  | expression => startsWithAny tokens expressionStarts
  | parenthesized => startsWith tokens .lparen
  | unary => startsWith tokens .operator
  | assignment => startsWithPair tokens .identifier [.assign, .typeIdentifier, .lbracket]
  | returned => startsWithKeyword tokens "return"
  | deferred => startsWithKeyword tokens "defer"
  | block => startsWith tokens .lbrace
  | signature => startsWithPair tokens .lparen [.typeIdentifier, .identifier, .lbracket]
  | method => startsWithPair tokens .lparen [.typeIdentifier, .identifier, .lbracket]
  | typeDef => startsWithKeyword tokens "type"
  | within => startsWithKeyword tokens "within"
  | withApis => startsWithKeyword tokens "with"
  | api => startsWithKeyword tokens "api"
  | program => do
      let annotated ← startsWith tokens .annotationSign
      if annotated then return true else startsWithKeyword tokens "api"
  | annotationCall => startsWith tokens .annotationSign

/-- The production as a rule, read as `read` says. -/
def ruleOf (read : Production → Parser NodeId) (p : Production) : Rule :=
  ⟨p.name, p.trigger, read p⟩

end Production

/-- A choice among productions whose trigger accepts. -/
def Parser.choice (read : Production → Parser NodeId) (options : List Production)
    (expected : String) : Parser NodeId :=
  dispatch (options.map (Production.ruleOf read)) expected

end ApiSyntax
