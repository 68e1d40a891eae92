/-
  ApiSyntax/Grammar/Naming.lean --- names, types, and names with their types.
-/
import ApiSyntax.Grammar.Production
import ApiSyntax.QualifiedName

set_option autoImplicit false

namespace ApiSyntax.Grammar

open ApiSyntax.Parser

/-- A plain name. -/
def identifier : Parser NodeId := do
  let t ← expect .identifier
  alloc t (.identifier t.value)

/-- What a type name is kept as: a qualified one in its flat form, unless that is switched off. -/
def typeName (e : ParserEnv) (name : String) : Expr :=
  let qualified := isQualified name.toList
  .typeIdentifier (if qualified && e.config.mangleQualifiedNames then e.mangle name else name)
    qualified

/-- A type name. -/
def namedType : Parser NodeId := do
  let t ← expect .typeIdentifier
  alloc t (typeName (← env) t.value)

/-- A type name, or a type between brackets. -/
def type (read : Production → Parser NodeId) : Parser NodeId := do
  if ← check .lbracket then
    let opening ← consume
    let element ← read .type
    let _ ← expect .rbracket
    alloc opening (.listType element)
  else namedType

/-- A name, then its type. -/
def pair (read : Production → Parser NodeId) : Parser NodeId := do
  let start ← startToken
  let name ← identifier
  let ty ← read .type
  alloc start (.pair name ty)

/-- Names with their types between parentheses. -/
def pairs (read : Production → Parser NodeId) : Parser (List NodeId) :=
  parenthesizedList .lparen .rparen (read .pair) .comma

end ApiSyntax.Grammar
