/-
  ApiSyntax/Grammar/Expression.lean --- literals, calls, operators.

  An expression is an operand, or an operand, an infix operator and the rest of the
  expression; the node of the two sides is settled against them as soon as it is
  made.  A prefix operator takes the operand directly behind it.
-/
import ApiSyntax.Grammar.Naming
import ApiSyntax.Number.RealText
import ApiSyntax.Operators.Rotation

set_option autoImplicit false

namespace ApiSyntax.Grammar

open ApiSyntax.Parser

/-! ## Literals -/

/-- The failure of a literal whose text has no value. -/
def invalidLiteral (t : Token) : Diagnostic :=
  (Diagnostic.of (.invalidLiteral t.value)).placed t.span

/-- A whole number. -/
def intLiteral : Parser NodeId := do
  let t ← expect .integer
  match readInt64 t.value.toList with
  | some value => alloc t (.intLiteral value)
  | none => fail (invalidLiteral t)

/-- A real number. -/
def realLiteral : Parser NodeId := do
  let t ← expect .real
  match Binary64.read t.value.toList with
  | some value => alloc t (.realLiteral value)
  | none => fail (invalidLiteral t)

/-- Expressions between brackets. -/
def listLiteral (read : Production → Parser NodeId) : Parser NodeId := do
  let start ← startToken
  let elements ← parenthesizedList .lbracket .rbracket (read .expression) .comma
  alloc start (.listLiteral elements)

/-! ## Calls -/

/-- Expressions between parentheses. -/
def arguments (read : Production → Parser NodeId) : Parser (List NodeId) :=
  parenthesizedList .lparen .rparen (read .expression) .comma

/-- A dot, a method name and arguments: the method of the receiver is called.  The call starts
where its receiver does. -/
def callLink (read : Production → Parser NodeId) (receiver : NodeId) : Parser NodeId := do
  let _ ← expect .dot
  let method ← identifier
  let args ← arguments read
  let start ← atArena (·.node receiver)
  alloc start.token (.instanceCall receiver method args)

/-- Links for as long as a dot follows; each call is the receiver of the next. -/
def callChain (read : Production → Parser NodeId) (receiver : NodeId) : Parser NodeId :=
  loop (fun receiver => do
    if ← check .dot then return .more (← callLink read receiver) else return .done receiver)
    receiver

/-- A type name applied to arguments, then links. -/
def constructorCall (read : Production → Parser NodeId) : Parser NodeId := do
  let start ← startToken
  let receiver ← namedType
  let args ← arguments read
  let call ← alloc start (.constructorCall receiver args)
  callChain read call

/-- A method of a type applied to arguments, then links. -/
def staticCall (read : Production → Parser NodeId) : Parser NodeId := do
  let start ← startToken
  let receiver ← namedType
  let _ ← expect .dot
  let method ← identifier
  let args ← arguments read
  let call ← alloc start (.staticCall receiver method args)
  callChain read call

/-- A name and at least one link. -/
def instanceCall (read : Production → Parser NodeId) : Parser NodeId := do
  let receiver ← identifier
  let first ← callLink read receiver
  callChain read first

/-! ## Operators -/

/-- What stands between infix operators.  Calls come ahead of the bare name that they start
with. -/
def operand (read : Production → Parser NodeId) : Parser NodeId :=
  choice read
    [.realLiteral, .intLiteral, .listLiteral, .constructorCall, .staticCall, .instanceCall,
      .identifier, .parenthesized, .unary] "expression"

/-- The token of a declared operator is consumed. -/
def operator (fixity : Fixity) : Parser Token := do
  let t ← expect .operator
  let s ← state
  let _ ← ofExcept ((s.work.operators.get t.value fixity).mapError (·.placed t.span))
  return t

/-- An infix operator and the rest of the expression behind a left operand. -/
def infixTail (read : Production → Parser NodeId) (left : NodeId) : Parser NodeId := do
  let t ← operator .infixOp
  let right ← read .expression
  let id ← alloc t (.binary t.value left right false)
  building (Workspace.settle id)

/-- An operand, and behind an operator the rest. -/
def expression (read : Production → Parser NodeId) : Parser NodeId := do
  let left ← operand read
  if ← check .operator then infixTail read left else return left

/-- A binary node becomes a unit. -/
def Expr.enclose : Expr → Expr
  | .binary operator left right _ => .binary operator left right true
  | e => e

/-- An expression between parentheses.  The node is that of the expression; a binary becomes a
unit. -/
def parenthesized (read : Production → Parser NodeId) : Parser NodeId := do
  let inner ← Parser.parenthesized .lparen .rparen (read .expression)
  let e ← atArena (·.expr inner)
  building (Workspace.onArena (.change (·.setExpr inner (Expr.enclose e))))
  return inner

/-- A prefix operator and its operand. -/
def unary (read : Production → Parser NodeId) : Parser NodeId := do
  let t ← operator .prefixOp
  let inner ← operand read
  alloc t (.unary t.value inner)

end ApiSyntax.Grammar
