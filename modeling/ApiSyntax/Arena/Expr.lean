/-
  ApiSyntax/Arena/Expr.lean --- the kinds of syntax nodes and their child slots.

  An expression refers to its children by handle.  `children` lists the child slots
  in the order of the source text and `withChildren` fills them in that order; the
  two are inverse to each other, so a change of slots is a change of the list.
-/
import ApiSyntax.Arena.NodeId
import ApiSyntax.Json

set_option autoImplicit false

namespace ApiSyntax

/-! ## Kinds -/

/-- The kind of a syntax node. -/
inductive NodeKind
  | identifier
  | typeIdentifier
  | listType
  | pair
  | intLiteral
  | realLiteral
  | listLiteral
  | constructorCall
  | staticCall
  | instanceCall
  | unary
  | binary
  | assignment
  | returned
  | deferred
  | block
  | signature
  | method
  | typeDef
  | within
  | withApis
  | annotationCall
  | api
  | program
deriving DecidableEq, Repr, Inhabited

namespace NodeKind

/-- The name of a kind in messages and documents. -/
def name : NodeKind → String
  | identifier => "Identifier"
  | typeIdentifier => "TypeIdentifier"
  | listType => "ListType"
  | pair => "Pair"
  | intLiteral => "IntLiteral"
  | realLiteral => "RealLiteral"
  | listLiteral => "ListLiteral"
  | constructorCall => "ConstructorCall"
  | staticCall => "StaticCall"
  | instanceCall => "InstanceCall"
  | unary => "Unary"
  | binary => "Binary"
  | assignment => "Assignment"
  | returned => "Return"
  | deferred => "Defer"
  | block => "Block"
  | signature => "Signature"
  | method => "Method"
  | typeDef => "TypeDef"
  | within => "Within"
  | withApis => "With"
  | annotationCall => "Annotation"
  | api => "Api"
  | program => "Program"

/-- All kinds. -/
def all : List NodeKind :=
  [identifier, typeIdentifier, listType, pair, intLiteral, realLiteral, listLiteral,
    constructorCall, staticCall, instanceCall, unary, binary, assignment, returned, deferred,
    block, signature, method, typeDef, within, withApis, annotationCall, api, program]

/-- The kind of a name. -/
def ofName? (name : String) : Option NodeKind := all.find? fun kind => kind.name == name

/-- The names of kinds as a list in messages. -/
def listText (kinds : List NodeKind) : String := ", ".intercalate (kinds.map name)

end NodeKind

/-! ## Expressions -/

/-- The contents of a syntax node. -/
inductive Expr
  /-- A plain name. -/
  | identifier (value : String)
  /-- A type name; a qualified name holds its flat form. -/
  | typeIdentifier (value : String) (fullyQualified : Bool)
  /-- A list type. -/
  | listType (element : NodeId)
  /-- A name with its type. -/
  | pair (name ty : NodeId)
  | intLiteral (value : Int)
  | realLiteral (value : Binary64)
  | listLiteral (elements : List NodeId)
  /-- A type name applied to arguments. -/
  | constructorCall (receiver : NodeId) (args : List NodeId)
  /-- A method of a type applied to arguments. -/
  | staticCall (receiver method : NodeId) (args : List NodeId)
  /-- A method of a value applied to arguments; the receiver may itself be a call. -/
  | instanceCall (receiver method : NodeId) (args : List NodeId)
  | unary (operator : String) (operand : NodeId)
  /-- Two operands; parentheses around it make it a unit that is never regrouped. -/
  | binary (operator : String) (left right : NodeId) (parenthesized : Bool)
  | assignment (name : NodeId) (ty : Option NodeId) (value : NodeId)
  | returned (value : NodeId)
  | deferred (block : NodeId)
  /-- Statements, then possibly a return statement. -/
  | block (body : List NodeId) (ret : Option NodeId)
  /-- A method without its block.  The receiver is a type; the named receiver of an instance
  signature is also its first parameter. -/
  | signature (name receiver : NodeId) (params : List NodeId) (returnType : Option NodeId)
      (isStatic : Bool)
  | method (signature body : NodeId)
  /-- A type with properties; `propertyOrder` gives each name the place of its first property. -/
  | typeDef (name : NodeId) (properties : List NodeId) (propertyOrder : List (String × Nat))
      (constructor : Option NodeId) (traits : List NodeId)
  | within (api : NodeId)
  | withApis (apis : List NodeId)
  | annotationCall (name : String) (parameters : List NodeId)
  | api (name : NodeId) (within withApis : Option NodeId) (body : List NodeId)
  /-- A whole source text. -/
  | program (apis annotations : List NodeId)
deriving DecidableEq, Repr, Inhabited

namespace Expr

/-- The kind of the contents. -/
def kind : Expr → NodeKind
  | identifier .. => .identifier
  | typeIdentifier .. => .typeIdentifier
  | listType .. => .listType
  | pair .. => .pair
  | intLiteral .. => .intLiteral
  | realLiteral .. => .realLiteral
  | listLiteral .. => .listLiteral
  | constructorCall .. => .constructorCall
  | staticCall .. => .staticCall
  | instanceCall .. => .instanceCall
  | unary .. => .unary
  | binary .. => .binary
  | assignment .. => .assignment
  | returned .. => .returned
  | deferred .. => .deferred
  | block .. => .block
  | signature .. => .signature
  | method .. => .method
  | typeDef .. => .typeDef
  | within .. => .within
  | withApis .. => .withApis
  | annotationCall .. => .annotationCall
  | api .. => .api
  | program .. => .program

/-- The child slots in the order of the source text. -/
def children : Expr → List NodeId
  | identifier .. => []
  | typeIdentifier .. => []
  | listType element => [element]
  | pair name ty => [name, ty]
  | intLiteral .. => []
  | realLiteral .. => []
  | listLiteral elements => elements
  | constructorCall receiver args => receiver :: args
  | staticCall receiver selector args => receiver :: selector :: args
  | instanceCall receiver selector args => receiver :: selector :: args
  | unary _ operand => [operand]
  | binary _ left right _ => [left, right]
  | assignment name ty value => name :: (ty.toList ++ [value])
  | returned value => [value]
  | deferred inner => [inner]
  | block body ret => body ++ ret.toList
  | signature name receiver params returnType _ =>
      receiver :: name :: (params ++ returnType.toList)
  | method head body => [head, body]
  | typeDef name properties _ constructor traits =>
      name :: (properties ++ (constructor.toList ++ traits))
  | within outer => [outer]
  | withApis apis => apis
  | annotationCall _ parameters => parameters
  | api name inside others body => name :: (inside.toList ++ (others.toList ++ body))
  | program apis annotations => annotations ++ apis

/-- A slot that may be missing, filled from the front of `cs`: what it holds, and what is left. -/
def fillOption (slot : Option NodeId) (cs : List NodeId) : Option NodeId × List NodeId :=
  match slot with
  | none => (none, cs)
  | some _ => (cs.head?, cs.tail)

/-- The contents with the child slots filled from a list, in the order of `children`.  A list of
another length is no filling, and fixed slots it does not reach keep what they hold. -/
def withChildren : Expr → List NodeId → Expr
  | listType _, [element] => listType element
  | pair _ _, [name, ty] => pair name ty
  | listLiteral _, cs => listLiteral cs
  | constructorCall _ _, receiver :: args => constructorCall receiver args
  | staticCall _ _ _, receiver :: selector :: args => staticCall receiver selector args
  | instanceCall _ _ _, receiver :: selector :: args => instanceCall receiver selector args
  | unary operator _, [operand] => unary operator operand
  | binary operator _ _ parenthesized, [left, right] => binary operator left right parenthesized
  | assignment _ none _, [name, value] => assignment name none value
  | assignment _ (some _) _, [name, ty, value] => assignment name (some ty) value
  | returned _, [value] => returned value
  | deferred _, [inner] => deferred inner
  | block body ret, cs => block (cs.take body.length) (fillOption ret (cs.drop body.length)).1
  | signature _ _ params returnType isStatic, receiver :: name :: cs =>
      signature name receiver (cs.take params.length)
        (fillOption returnType (cs.drop params.length)).1 isStatic
  | method _ _, [head, body] => method head body
  | typeDef _ properties order constructor _, name :: cs =>
      let (filled, traits) := fillOption constructor (cs.drop properties.length)
      typeDef name (cs.take properties.length) order filled traits
  | within _, [outer] => within outer
  | withApis _, cs => withApis cs
  | annotationCall name _, cs => annotationCall name cs
  | api _ inside others _, name :: cs =>
      let (inside, cs) := fillOption inside cs
      let (others, body) := fillOption others cs
      api name inside others body
  | program _ annotations, cs =>
      program (cs.drop annotations.length) (cs.take annotations.length)
  | e, _ => e

/-- The handle occurs in a child slot. -/
def hasChild (e : Expr) (id : NodeId) : Bool := e.children.contains id

/-- The contents with every slot that holds `target` pointed at `replacement`. -/
def redirect (e : Expr) (target replacement : NodeId) : Expr :=
  e.withChildren (e.children.map fun c => if c = target then replacement else c)

/-! ## The slots and the list of slots -/

@[simp] theorem withChildren_children (e : Expr) : e.withChildren e.children = e := by
  cases e with
  | assignment name ty value => cases ty <;> rfl
  | block body ret => cases ret <;> simp [children, withChildren, fillOption]
  | signature name receiver params returnType isStatic =>
    cases returnType <;> simp [children, withChildren, fillOption]
  | typeDef name properties order constructor traits =>
    cases constructor <;> simp [children, withChildren, fillOption]
  | api name inside others body =>
    cases inside <;> cases others <;> simp [children, withChildren, fillOption]
  | program apis annotations => simp [children, withChildren]
  | _ => rfl

theorem kind_withChildren (e : Expr) (cs : List NodeId) : (e.withChildren cs).kind = e.kind := by
  unfold withChildren
  split <;> rfl

theorem exists_pair_of_length {cs : List NodeId} (h : cs.length = 2) : ∃ a b, cs = [a, b] := by
  obtain ⟨a, rest, rfl⟩ := List.exists_cons_of_length_eq_add_one h
  obtain ⟨b, rfl⟩ := List.length_eq_one_iff.mp (Nat.succ.inj h)
  exact ⟨a, b, rfl⟩

theorem exists_triple_of_length {cs : List NodeId} (h : cs.length = 3) :
    ∃ a b c, cs = [a, b, c] := by
  obtain ⟨a, rest, rfl⟩ := List.exists_cons_of_length_eq_add_one h
  obtain ⟨b, c, rfl⟩ := exists_pair_of_length (Nat.succ.inj h)
  exact ⟨a, b, c, rfl⟩

/-- A list that is as long as three parts of slots, the second one of which may be missing, has such
parts. -/
theorem exists_filling (l : List NodeId) (slot : Option NodeId) (r : List NodeId) {cs : List NodeId}
    (h : cs.length = (l ++ (slot.toList ++ r)).length) :
    ∃ (l' : List NodeId) (slot' : Option NodeId) (r' : List NodeId),
      cs = l' ++ (slot'.toList ++ r') ∧ l'.length = l.length ∧ slot'.isSome = slot.isSome ∧
        r'.length = r.length := by
  rw [List.length_append, List.length_append] at h
  cases slot with
  | none =>
    simp only [Option.toList_none, List.length_nil, Nat.zero_add] at h
    exact ⟨cs.take l.length, none, cs.drop l.length, by simp, by simp; omega, rfl, by simp; omega⟩
  | some c =>
    simp only [Option.toList_some, List.length_singleton] at h
    have hd : (cs.drop l.length).length = r.length + 1 := by simp only [List.length_drop]; omega
    obtain ⟨c', r', hr⟩ := List.exists_cons_of_length_eq_add_one hd
    refine ⟨cs.take l.length, some c', r', ?_, by simp; omega, rfl, by rw [hr] at hd; simpa using hd⟩
    rw [Option.toList_some, List.singleton_append, ← hr, List.take_append_drop]

theorem fillOption_append {slot slot' : Option NodeId} (h : slot'.isSome = slot.isSome)
    (r : List NodeId) : fillOption slot (slot'.toList ++ r) = (slot', r) := by
  cases slot <;> cases slot' <;> simp_all [fillOption]

theorem fillOption_toList {slot slot' : Option NodeId} (h : slot'.isSome = slot.isSome) :
    fillOption slot slot'.toList = (slot', []) := by
  simpa using fillOption_append h []

/-- Filling the slots from a list of the right length makes that list the children. -/
theorem children_withChildren (e : Expr) (cs : List NodeId)
    (h : cs.length = e.children.length) : (e.withChildren cs).children = cs := by
  cases e with
  | identifier | typeIdentifier | intLiteral | realLiteral =>
    exact (List.length_eq_zero_iff.mp h).symm
  | listLiteral | withApis | annotationCall => rfl
  | listType | unary | returned | deferred | within =>
    obtain ⟨a, rfl⟩ := List.length_eq_one_iff.mp h
    rfl
  | pair | binary | method =>
    obtain ⟨a, b, rfl⟩ := exists_pair_of_length h
    rfl
  | constructorCall =>
    obtain ⟨a, cs, rfl⟩ := List.exists_cons_of_length_eq_add_one h
    rfl
  | staticCall | instanceCall =>
    obtain ⟨a, cs, rfl⟩ := List.exists_cons_of_length_eq_add_one h
    obtain ⟨b, cs, rfl⟩ := List.exists_cons_of_length_eq_add_one (Nat.succ.inj h)
    rfl
  | assignment name ty value =>
    cases ty with
    | none =>
      obtain ⟨a, b, rfl⟩ := exists_pair_of_length h
      rfl
    | some ty =>
      obtain ⟨a, b, c, rfl⟩ := exists_triple_of_length h
      rfl
  | block body ret =>
    obtain ⟨body', ret', rest, rfl, hbody, hret, hrest⟩ :=
      exists_filling body ret [] (by simpa [children] using h)
    obtain rfl := List.length_eq_zero_iff.mp hrest
    simp only [withChildren, ← hbody, List.take_left, List.drop_left, List.append_nil,
      fillOption_toList hret, children]
  | signature name receiver params returnType isStatic =>
    obtain ⟨a, cs, rfl⟩ := List.exists_cons_of_length_eq_add_one h
    obtain ⟨b, cs, rfl⟩ := List.exists_cons_of_length_eq_add_one (Nat.succ.inj h)
    obtain ⟨params', result', rest, rfl, hparams, hresult, hrest⟩ :=
      exists_filling params returnType [] (by simpa [children] using h)
    obtain rfl := List.length_eq_zero_iff.mp hrest
    simp only [withChildren, ← hparams, List.take_left, List.drop_left, List.append_nil,
      fillOption_toList hresult, children]
  | typeDef name properties order constructor traits =>
    obtain ⟨a, cs, rfl⟩ := List.exists_cons_of_length_eq_add_one h
    obtain ⟨properties', made, traits', rfl, hproperties, hmade, -⟩ :=
      exists_filling _ _ _ (Nat.succ.inj h)
    simp only [withChildren, ← hproperties, List.take_left, List.drop_left,
      fillOption_append hmade, children]
  | api name inside others body =>
    obtain ⟨a, cs, rfl⟩ := List.exists_cons_of_length_eq_add_one h
    obtain ⟨_ | ⟨_, _⟩, inside', rest, rfl, hnil, hinside, hrest⟩ :=
      exists_filling [] _ _ (Nat.succ.inj h)
    · obtain ⟨_ | ⟨_, _⟩, others', body', rfl, hnil, hothers, -⟩ :=
        exists_filling [] _ _ hrest
      · simp only [withChildren, List.nil_append, fillOption_append hinside,
          fillOption_append hothers, children]
      · cases hnil
    · cases hnil
  | program apis annotations =>
    exact List.take_append_drop ..

/-- What contents hold beside their slots stays when the slots are filled: filled with the old children
they are the old contents again. -/
theorem withChildren_back (e : Expr) {cs : List NodeId} (h : cs.length = e.children.length) :
    (e.withChildren cs).withChildren e.children = e := by
  cases e with
  | identifier | typeIdentifier | intLiteral | realLiteral => rfl
  | listLiteral | withApis | annotationCall => rfl
  | listType | unary | returned | deferred | within =>
    obtain ⟨a, rfl⟩ := List.length_eq_one_iff.mp h
    rfl
  | pair | binary | method =>
    obtain ⟨a, b, rfl⟩ := exists_pair_of_length h
    rfl
  | constructorCall =>
    obtain ⟨a, cs, rfl⟩ := List.exists_cons_of_length_eq_add_one h
    rfl
  | staticCall | instanceCall =>
    obtain ⟨a, cs, rfl⟩ := List.exists_cons_of_length_eq_add_one h
    obtain ⟨b, cs, rfl⟩ := List.exists_cons_of_length_eq_add_one (Nat.succ.inj h)
    rfl
  | assignment name ty value =>
    cases ty with
    | none =>
      obtain ⟨a, b, rfl⟩ := exists_pair_of_length h
      rfl
    | some ty =>
      obtain ⟨a, b, c, rfl⟩ := exists_triple_of_length h
      rfl
  | block body ret =>
    obtain ⟨body', ret', rest, rfl, hbody, hret, hrest⟩ :=
      exists_filling body ret [] (by simpa [children] using h)
    rw [children, withChildren, ← hbody, List.take_left, List.drop_left, fillOption_append hret,
      withChildren, hbody, List.take_left, List.drop_left, fillOption_toList hret.symm]
  | signature name receiver params returnType isStatic =>
    obtain ⟨a, cs, rfl⟩ := List.exists_cons_of_length_eq_add_one h
    obtain ⟨b, cs, rfl⟩ := List.exists_cons_of_length_eq_add_one (Nat.succ.inj h)
    obtain ⟨params', result', rest, rfl, hparams, hresult, hrest⟩ :=
      exists_filling params returnType [] (by simpa [children] using h)
    rw [children, withChildren, ← hparams, List.take_left, List.drop_left,
      fillOption_append hresult, withChildren, hparams, List.take_left, List.drop_left,
      fillOption_toList hresult.symm]
  | typeDef name properties order constructor traits =>
    obtain ⟨a, cs, rfl⟩ := List.exists_cons_of_length_eq_add_one h
    obtain ⟨properties', made, traits', rfl, hproperties, hmade, htraits⟩ :=
      exists_filling _ _ _ (Nat.succ.inj h)
    simp only [children, withChildren, ← hproperties, List.take_left, List.drop_left,
      fillOption_append hmade]
    simp only [hproperties, List.take_left, List.drop_left, fillOption_append hmade.symm]
  | api name inside others body =>
    obtain ⟨a, cs, rfl⟩ := List.exists_cons_of_length_eq_add_one h
    obtain ⟨_ | ⟨_, _⟩, inside', rest, rfl, hnil, hinside, hrest⟩ :=
      exists_filling [] _ _ (Nat.succ.inj h)
    · obtain ⟨_ | ⟨_, _⟩, others', body', rfl, hnil, hothers, hbody⟩ :=
        exists_filling [] _ _ hrest
      · simp only [children, withChildren, List.nil_append, fillOption_append hinside,
          fillOption_append hothers]
        simp only [fillOption_append hinside.symm, fillOption_append hothers.symm]
      · cases hnil
    · cases hnil
  | program apis annotations =>
    have hlength : (cs.take annotations.length).length = annotations.length := by
      simp only [children, List.length_append] at h
      simp only [List.length_take]
      omega
    rw [children, withChildren, withChildren, hlength, List.take_left, List.drop_left]

/-! ## Documents -/

/-- The document form of a handle. -/
def idJson (id : NodeId) : Json := .nat id.index

/-- The document form of a list of handles. -/
def idsJson (ids : List NodeId) : Json := .list (ids.map idJson)

/-- The document form of a slot that may be missing. -/
def optionJson (id : Option NodeId) : Json := Json.option idJson id

/-- The fields of the contents, without the kind. -/
def fieldsJson : Expr → List (String × Json)
  | identifier value => [("value", .text value)]
  | typeIdentifier value fullyQualified =>
      [("value", .text value), ("fully_qualified", .bool fullyQualified)]
  | listType element => [("element", idJson element)]
  | pair name ty => [("name", idJson name), ("ty", idJson ty)]
  | intLiteral value => [("value", .int value)]
  | realLiteral value => [("value", .real value)]
  | listLiteral elements => [("elements", idsJson elements)]
  | constructorCall receiver args => [("receiver", idJson receiver), ("args", idsJson args)]
  | staticCall receiver selector args =>
      [("receiver", idJson receiver), ("method", idJson selector), ("args", idsJson args)]
  | instanceCall receiver selector args =>
      [("receiver", idJson receiver), ("method", idJson selector), ("args", idsJson args)]
  | unary operator operand => [("operator", .text operator), ("operand", idJson operand)]
  | binary operator left right parenthesized =>
      [("operator", .text operator), ("left", idJson left), ("right", idJson right),
        ("parenthesized", .bool parenthesized)]
  | assignment name ty value =>
      [("name", idJson name), ("ty", optionJson ty), ("value", idJson value)]
  | returned value => [("value", idJson value)]
  | deferred inner => [("block", idJson inner)]
  | block body ret => [("body", idsJson body), ("ret", optionJson ret)]
  | signature name receiver params returnType isStatic =>
      [("name", idJson name), ("receiver", idJson receiver), ("params", idsJson params),
        ("return_type", optionJson returnType), ("is_static", .bool isStatic)]
  | method head body => [("signature", idJson head), ("body", idJson body)]
  | typeDef name properties order constructor traits =>
      [("name", idJson name), ("properties", idsJson properties),
        ("property_order", .object (order.map fun entry => (entry.1, .nat entry.2))),
        ("constructor", optionJson constructor), ("traits", idsJson traits)]
  | within outer => [("api", idJson outer)]
  | withApis apis => [("apis", idsJson apis)]
  | annotationCall name parameters => [("name", .text name), ("parameters", idsJson parameters)]
  | api name inside others body =>
      [("name", idJson name), ("within", optionJson inside), ("with", optionJson others),
        ("body", idsJson body)]
  | program apis annotations => [("apis", idsJson apis), ("annotations", idsJson annotations)]

/-- The document form of the contents: the kind first, then the fields. -/
def toJson (e : Expr) : Json := .object (("kind", .text e.kind.name) :: e.fieldsJson)

end Expr

end ApiSyntax
