/-
  ApiSyntax/Grammar/Declaration.lean --- signatures, methods, types, APIs, programs.

  The named receiver of an instance signature is its first parameter, and the
  receiver slot holds a copy of its type.  A type with properties gets a static
  signature that makes values of it, over copies of the properties.
-/
import ApiSyntax.Grammar.Statement

set_option autoImplicit false

namespace ApiSyntax.Grammar

open ApiSyntax.Parser

/-! ## Signatures and methods -/

/-- A receiver: its type, the parameter that names it, if there is one. -/
structure Receiver where
  ty : NodeId
  named : Option NodeId

/-- What stands between the first parentheses of a signature. -/
def receiver (read : Production → Parser NodeId) : Parser Receiver := do
  if ← check .identifier then
    let start ← startToken
    let name ← identifier
    let ty ← read .type
    let param ← alloc start (.pair name ty)
    return ⟨← duplicate ty, some param⟩
  else return ⟨← read .type, none⟩

/-- The return type between the last parentheses of a signature, if there is any. -/
def returnType (read : Production → Parser NodeId) : Parser (Option NodeId) := do
  if ← check .lparen then
    let _ ← consume
    if ← check .rparen then
      let _ ← consume
      return none
    else
      let ty ← read .type
      let _ ← expect .rparen
      return some ty
  else return none

/-- Receiver, name, parameters, possibly a return type.  The name may be an operator. -/
def signature (read : Production → Parser NodeId) : Parser NodeId := do
  let opening ← expect .lparen
  let r ← receiver read
  let _ ← expect .rparen
  let t ← expectAny [.identifier, .operator] true
  let name ← alloc t (.identifier t.value)
  let params ← pairs read
  let result ← returnType read
  alloc opening (.signature name r.ty (r.named.toList ++ params) result r.named.isNone)

/-- A signature and its block. -/
def method (read : Production → Parser NodeId) : Parser NodeId := do
  let start ← startToken
  let head ← read .signature
  let body ← read .block
  alloc start (.method head body)

/-! ## Types -/

/-- The name of the signature that makes values of a type. -/
def constructorName : String := "__init__"

/-- Each subtree is copied. -/
def duplicateAll : List NodeId → Parser (List NodeId)
  | [] => return []
  | id :: rest => do
      let copy ← duplicate id
      let copies ← duplicateAll rest
      return copy :: copies

/-- The signature that makes values of a type with properties. -/
def constructor (name : NodeId) (properties : List NodeId) : Parser NodeId := do
  let n ← atArena (·.node name)
  let receiver ← duplicate name
  let result ← duplicate name
  let made ← alloc n.token (.identifier constructorName)
  let params ← duplicateAll properties
  alloc n.token (.signature made receiver params (some result) true)

/-- A place among ordered names, unless the name has one. -/
def insertFirst (name : String) (place : Nat) : List (String × Nat) → List (String × Nat)
  | [] => [(name, place)]
  | (other, first) :: rest =>
      if name = other then (other, first) :: rest
      else if name < other then (name, place) :: (other, first) :: rest
      else (other, first) :: insertFirst name place rest

/-- The name of a property. -/
def propertyName (a : Arena) (property : NodeId) : Except Diagnostic (Option String) := do
  match ← a.expr property with
  | .pair name _ =>
      match ← a.expr name with
      | .identifier value => return some value
      | _ => return none
  | _ => return none

/-- The place of the first property of each name, in the order of the names. -/
def propertyOrder (a : Arena) (properties : List NodeId) :
    Except Diagnostic (List (String × Nat)) := do
  let names ← properties.mapM (propertyName a)
  return names.zipIdx.foldl (fun order entry =>
    match entry.1 with
    | some name => insertFirst name entry.2 order
    | none => order) []

/-- The place in the tokens, set. -/
def moveTo (c : Cursor) : Parser Unit := fun _ s => (.ok (), { s with cursor := c })

/-- The properties of a type.  What stands between parentheses is left alone when it is no list
of properties, or when a name or operator follows: then it opens a signature. -/
def properties (read : Production → Parser NodeId) : Parser (List NodeId) := do
  let place ← atCursor id
  match ← attempt (pairs read) with
  | none => return []
  | some found =>
      if (← check .identifier) || (← check .operator) then
        moveTo place
        return []
      else return found

/-- The names behind the keyword, if it follows. -/
def traits : Parser (List NodeId) := do
  if ← checkKeyword "with" then
    let _ ← consume
    delimited namedType .comma
  else return []

/-- A type: its name, its properties, the names of its traits. -/
def typeDef (read : Production → Parser NodeId) : Parser NodeId := do
  let keyword ← expectKeyword "type"
  let name ← namedType
  let found ← properties read
  let order ← atArena (propertyOrder · found)
  let made ← (do if found.isEmpty then return none else return some (← constructor name found))
  let extra ← traits
  alloc keyword (.typeDef name found order made extra)

/-! ## APIs -/

/-- The keyword and the name of the surrounding API. -/
def within : Parser NodeId := do
  let keyword ← expectKeyword "within"
  let outer ← namedType
  alloc keyword (.within outer)

/-- One or more times the keyword and the name of an API. -/
def withApis : Parser NodeId := do
  let keyword ← expectKeyword "with"
  let first ← namedType
  let apis ← loop (fun apis => do
    if ← checkKeyword "with" then
      let _ ← consume
      return .more (apis ++ [← namedType])
    else return .done apis) [first]
  alloc keyword (.withApis apis)

/-- What stands in the body of an API. -/
def declaration (read : Production → Parser NodeId) : Parser NodeId :=
  choice read [.typeDef, .method, .annotationCall] "type, method or annotation"

/-- One round of the body of an API: its closing brace, or a declaration. -/
def apiRound (read : Production → Parser NodeId) (opened : Span) (body : List NodeId) :
    Parser (Round (List NodeId) (List NodeId)) := do
  match (← remaining).head? with
  | none => fail (unclosedBlock opened)
  | some t =>
      if t.is .rbrace then
        let _ ← consume
        return .done body
      else return .more (body ++ [← declaration read])

/-- An API: its name, the APIs it refers to, its declarations. -/
def api (read : Production → Parser NodeId) : Parser NodeId := do
  let keyword ← expectKeyword "api"
  let name ← namedType
  let inside ← attempt (read .within)
  let others ← attempt (read .withApis)
  let opening ← expect .lbrace
  let body ← inPhase .declaration (loop (apiRound read opening.span) [])
  alloc keyword (.api name inside others body)

/-! ## Programs -/

/-- The handles of annotations, and the others. -/
def separate (a : Arena) : List NodeId → Except Diagnostic (List NodeId × List NodeId)
  | [] => return ([], [])
  | id :: rest => do
      let kind ← a.kind id
      let (annotations, others) ← separate a rest
      if kind = .annotationCall then return (id :: annotations, others)
      else return (annotations, id :: others)

/-- The program node is tagged with the name of each annotation; the first of a name counts. -/
def tagAll (program : NodeId) : List NodeId → Parser Unit
  | [] => return ()
  | id :: rest => do
      match ← atArena (·.expr id) with
      | .annotationCall name _ =>
          let _ ← working (Workspace.tag program ⟨name, some id⟩)
          tagAll program rest
      | _ => tagAll program rest

/-- Annotations and APIs up to the end. -/
def program (read : Production → Parser NodeId) : Parser NodeId := do
  let start ← startToken
  let nodes ← inPhase .program
    (execute ([.annotationCall, .api].map (Production.ruleOf read)))
  let (annotations, apis) ← atArena (separate · nodes)
  let id ← alloc start (.program apis annotations)
  tagAll id annotations
  return id

end ApiSyntax.Grammar
