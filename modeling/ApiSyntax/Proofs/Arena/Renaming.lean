/-
  ApiSyntax/Proofs/Arena/Renaming.lean --- contents under other handles.

  A renaming replaces the handles in the contents of a node, in a failure or in a tag, and
  nothing else.  It goes with the child slots: filling the slots of renamed contents with
  renamed handles is renaming the filled contents.
-/
import ApiSyntax.Operators.Rotation

set_option autoImplicit false

namespace ApiSyntax

/-! ## Contents -/

namespace Expr

/-- The contents with every handle replaced. -/
def rename (f : NodeId → NodeId) : Expr → Expr
  | identifier value => identifier value
  | typeIdentifier value qualified => typeIdentifier value qualified
  | listType element => listType (f element)
  | pair name ty => pair (f name) (f ty)
  | intLiteral value => intLiteral value
  | realLiteral value => realLiteral value
  | listLiteral elements => listLiteral (elements.map f)
  | constructorCall receiver args => constructorCall (f receiver) (args.map f)
  | staticCall receiver selector args => staticCall (f receiver) (f selector) (args.map f)
  | instanceCall receiver selector args => instanceCall (f receiver) (f selector) (args.map f)
  | unary operator operand => unary operator (f operand)
  | binary operator left right parenthesized => binary operator (f left) (f right) parenthesized
  | assignment name ty value => assignment (f name) (ty.map f) (f value)
  | returned value => returned (f value)
  | deferred inner => deferred (f inner)
  | block body ret => block (body.map f) (ret.map f)
  | signature name receiver params returnType isStatic =>
      signature (f name) (f receiver) (params.map f) (returnType.map f) isStatic
  | method head body => method (f head) (f body)
  | typeDef name properties order constructor traits =>
      typeDef (f name) (properties.map f) order (constructor.map f) (traits.map f)
  | within outer => within (f outer)
  | withApis apis => withApis (apis.map f)
  | annotationCall name parameters => annotationCall name (parameters.map f)
  | api name inside others body => api (f name) (inside.map f) (others.map f) (body.map f)
  | program apis annotations => program (apis.map f) (annotations.map f)

variable (f : NodeId → NodeId)

@[simp] theorem kind_rename (e : Expr) : (e.rename f).kind = e.kind := by
  cases e <;> rfl

theorem toList_rename (slot : Option NodeId) : (slot.map f).toList = slot.toList.map f := by
  cases slot <;> rfl

@[simp] theorem children_rename (e : Expr) : (e.rename f).children = e.children.map f := by
  cases e <;> simp [rename, children, toList_rename]

/-- What no renaming touches stays as it is. -/
@[simp] theorem rename_id (e : Expr) : e.rename id = e := by
  cases e <;> simp [rename]

theorem fillOption_rename (slot : Option NodeId) (cs : List NodeId) :
    fillOption (slot.map f) (cs.map f) =
      ((fillOption slot cs).1.map f, (fillOption slot cs).2.map f) := by
  cases slot with
  | none => rfl
  | some c => cases cs <;> rfl

/-- Slots are filled before or after a renaming. -/
theorem withChildren_rename (e : Expr) (cs : List NodeId) :
    (e.rename f).withChildren (cs.map f) = (e.withChildren cs).rename f := by
  cases e with
  | identifier | typeIdentifier | intLiteral | realLiteral | listLiteral | withApis
  | annotationCall => rfl
  | listType | unary | returned | deferred | within =>
    rcases cs with _ | ⟨a, _ | ⟨b, cs⟩⟩ <;> rfl
  | pair | binary | method => rcases cs with _ | ⟨a, _ | ⟨b, _ | ⟨c, cs⟩⟩⟩ <;> rfl
  | constructorCall => cases cs <;> rfl
  | staticCall | instanceCall => rcases cs with _ | ⟨a, _ | ⟨b, cs⟩⟩ <;> rfl
  | assignment name ty value =>
    cases ty <;> rcases cs with _ | ⟨a, _ | ⟨b, _ | ⟨c, _ | ⟨d, cs⟩⟩⟩⟩ <;> rfl
  | block body ret =>
    simp only [rename, withChildren, List.length_map, ← List.map_take, ← List.map_drop,
      fillOption_rename]
  | signature name receiver params returnType isStatic =>
    rcases cs with _ | ⟨a, _ | ⟨b, cs⟩⟩
    · rfl
    · rfl
    · simp only [rename, withChildren, List.map_cons, List.length_map, ← List.map_take,
        ← List.map_drop, fillOption_rename]
  | typeDef name properties order constructor traits =>
    cases cs with
    | nil => rfl
    | cons a cs =>
      simp only [rename, withChildren, List.map_cons, List.length_map, ← List.map_take,
        ← List.map_drop, fillOption_rename]
  | api name inside others body =>
    cases cs with
    | nil => rfl
    | cons a cs => simp only [rename, withChildren, List.map_cons, fillOption_rename]
  | program apis annotations =>
    simp only [rename, withChildren, List.length_map, ← List.map_take, ← List.map_drop]

end Expr

/-! ## Binary nodes -/

/-- The operands replaced. -/
def OpenBinary.rename (f : NodeId → NodeId) (b : OpenBinary) : OpenBinary :=
  ⟨b.operator, f b.left, f b.right⟩

theorem Expr.openBinary?_rename (f : NodeId → NodeId) (e : Expr) :
    (e.rename f).openBinary? = e.openBinary?.map (OpenBinary.rename f) := by
  cases e with
  | binary operator left right parenthesized => cases parenthesized <;> rfl
  | _ => rfl

/-- The turn of the node under its other handle. -/
def Turn.rename (f : NodeId → NodeId) : Turn → Turn
  | stay => stay
  | liftLeft node lifted => liftLeft (node.rename f) (lifted.rename f)
  | liftRight node lifted => liftRight (node.rename f) (lifted.rename f)

/-! ## Tags and failures -/

/-- The origin replaced. -/
def Tag.rename (f : NodeId → NodeId) (t : Tag) : Tag := ⟨t.name, t.origin.map f⟩

/-- The handles that a cause tells of, replaced. -/
def Cause.rename (f : NodeId → NodeId) : Cause → Cause
  | childMismatch parent target matched => childMismatch (f parent) (f target) matched
  | unknownNode id => unknownNode (f id)
  | sharedNode id parents => sharedNode (f id) parents
  | c => c

@[simp] theorem Cause.rename_id (c : Cause) : c.rename id = c := by
  cases c <;> rfl

@[simp] theorem Tag.rename_id (t : Tag) : t.rename id = t := by
  simp [rename]

end ApiSyntax
