/-
  ApiSyntax/Grammar/Annotation.lean --- annotations, which run extensions.

  The extension runs as soon as its annotation is read, so what it declares holds for
  the text behind the annotation.  An extension without parameters leaves alone what
  stands between parentheses, if that is no list of parameters.
-/
import ApiSyntax.Grammar.Declaration

set_option autoImplicit false

namespace ApiSyntax.Grammar

open ApiSyntax.Parser

/-- The kinds of token that the parts of a name of an extension may have. -/
def partKinds : List TokenKind := [.typeIdentifier, .identifier]

/-- A dot and a part of a name stand ahead. -/
def hasPart (tokens : List Token) : Bool :=
  match tokens with
  | dot :: part :: _ => dot.is .dot && partKinds.any part.is
  | _ => false

/-- The name of an extension: parts with dots between them. -/
def extensionName : Parser String := do
  let first ← expectAny partKinds true
  let parts ← loop (fun parts => do
    if hasPart (← remaining) then
      let _ ← consume
      return .more (parts ++ [(← consume).value])
    else return .done parts) [first.value]
  return ".".intercalate parts

/-- What an extension may be given. -/
def parameter (read : Production → Parser NodeId) : Parser NodeId :=
  choice read [.method, .signature, .expression] "method, signature or expression"

/-- Parameters between parentheses. -/
def parameterList (read : Production → Parser NodeId) : Parser (List NodeId) :=
  parenthesizedList .lparen .rparen (parameter read) .comma

/-- The parameters of a call of `e`. -/
def parameters (read : Production → Parser NodeId) (e : Extension) : Parser (List NodeId) := do
  if ← check .lparen then
    if e.parameters.isEmpty then return (← attempt (parameterList read)).getD []
    else parameterList read
  else return []

/-- The extension of a name, asked for at `place`. -/
def extensionAt (place : Span) (name : String) : Parser Extension := do
  match (← env).extensions.get? name with
  | some e => return e
  | none => fail ((Diagnostic.of (.unknownExtension name)).placed place)

/-- The failure of parameters of other kinds than those the extension declares. -/
def parameterMismatch (e : Extension) (name : String) (found : List NodeKind) (place : Span) :
    Diagnostic :=
  (Diagnostic.of (.extensionParameterMismatch name (NodeKind.listText e.parameters)
    (NodeKind.listText found))).placed place

/-- The extension runs at an annotation node. -/
def invoke (e : Extension) (name : String) (place : Span) (node : NodeId)
    (params : List NodeId) : Parser Unit := do
  let inside ← phase
  note (.invoking name inside place)
  building ((e.invoke ⟨inside, node⟩ params).mapError fun d => .failed (d.orPlaced place))

/-- An annotation: the name of an extension, and its parameters. -/
def annotationCall (read : Production → Parser NodeId) : Parser NodeId := do
  let t ← expect .annotationSign
  let name ← extensionName
  let e ← extensionAt t.span name
  let params ← parameters read e
  let found ← atArena fun a => params.mapM a.kind
  if found = e.parameters then
    let node ← alloc t (.annotationCall name params)
    invoke e name t.span node params
    return node
  else fail (parameterMismatch e name found t.span)

end ApiSyntax.Grammar
