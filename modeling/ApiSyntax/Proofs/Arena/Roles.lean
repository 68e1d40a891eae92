/-
  ApiSyntax/Proofs/Arena/Roles.lean --- what each child slot may hold.

  Child slots are handles without types.  A role says which contents a slot may hold, and
  `requires` lists, for the contents of a node, what must be known of its slots and of the
  operator it names.  That list is all that has to be looked at when a node is made.
-/
import ApiSyntax.Extension.Basic

set_option autoImplicit false

namespace ApiSyntax

/-! ## Roles -/

/-- What a child slot may hold. -/
inductive Role
  | anything
  | name
  | typeName
  | type
  | pair
  | expression
  /-- What a method may be called on. -/
  | receiver
  /-- A call of a method. -/
  | call
  | statement
  | returned
  | block
  /-- A block without a return statement. -/
  | plainBlock
  | signature
  | declaration
  | within
  | withApis
  | annotationCall
  | api
  /-- What stands in a program. -/
  | part
  | program
  | exactly (kind : NodeKind)
deriving DecidableEq, Repr, Inhabited

namespace Role

/-- The kinds of contents that a role admits. -/
def kinds : Role → List NodeKind
  | anything => NodeKind.all
  | name => [.identifier]
  | typeName => [.typeIdentifier]
  | type => [.typeIdentifier, .listType]
  | pair => [.pair]
  | expression =>
      [.identifier, .intLiteral, .realLiteral, .listLiteral, .constructorCall, .staticCall,
        .instanceCall, .unary, .binary]
  | receiver => [.identifier, .constructorCall, .staticCall, .instanceCall]
  | call => [.staticCall, .instanceCall]
  | statement => [.assignment, .annotationCall, .deferred, .instanceCall, .staticCall]
  | returned => [.returned]
  | block => [.block]
  | plainBlock => [.block]
  | signature => [.signature]
  | declaration => [.typeDef, .method, .annotationCall]
  | within => [.within]
  | withApis => [.withApis]
  | annotationCall => [.annotationCall]
  | api => [.api]
  | part => [.annotationCall, .api]
  | program => [.program]
  | exactly kind => [kind]

/-- The contents are a block with a return statement. -/
def returns : Expr → Bool
  | .block _ (some _) => true
  | _ => false

/-- The contents may stand in a slot of this role. -/
def admits (r : Role) (e : Expr) : Bool :=
  r.kinds.contains e.kind && (r != plainBlock || !returns e)

/-- Names and types, and names with their types. -/
def isTyping : Role → Bool
  | name | typeName | type | pair => true
  | _ => false

/-- Every content of one role is one of the other. -/
def le (r r' : Role) : Bool := r.kinds.all r'.kinds.contains && r' != plainBlock

theorem admits_of_kind {r : Role} {e : Expr} (hr : r ≠ plainBlock) (h : e.kind ∈ r.kinds) :
    r.admits e := by
  simp [admits, hr, h]

theorem admits_anything (e : Expr) : anything.admits e := by
  apply admits_of_kind (by decide)
  cases e.kind <;> decide

theorem kind_of_admits {r : Role} {e : Expr} (h : r.admits e) : e.kind ∈ r.kinds := by
  simp only [admits, Bool.and_eq_true, List.contains_iff_mem] at h
  exact h.1

theorem admits_of_le {r r' : Role} {e : Expr} (hle : r.le r') (h : r.admits e) :
    r'.admits e := by
  simp only [le, Bool.and_eq_true, List.all_eq_true, List.contains_iff_mem, bne_iff_ne] at hle
  exact admits_of_kind hle.2 (hle.1 _ (kind_of_admits h))

end Role

/-! ## What is known -/

/-- What may be known: the role of a node, or that a symbol is an operator. -/
inductive Known
  | has (id : NodeId) (role : Role)
  | declared (symbol : String) (fixity : Fixity)
deriving DecidableEq, Repr

/-- The node that something is known of. -/
def Known.subject? : Known → Option NodeId
  | has id _ => some id
  | declared .. => none

namespace Expr

/-- What must be known of the slots of a node with these contents, and of its operator. -/
def requires : Expr → List Known
  | identifier .. => []
  | typeIdentifier .. => []
  | listType element => [.has element .type]
  | pair name ty => [.has name .name, .has ty .type]
  | intLiteral .. => []
  | realLiteral .. => []
  | listLiteral elements => elements.map (.has · .expression)
  | constructorCall receiver args => .has receiver .typeName :: args.map (.has · .expression)
  | staticCall receiver selector args =>
      .has receiver .typeName :: .has selector .name :: args.map (.has · .expression)
  | instanceCall receiver selector args =>
      .has receiver .receiver :: .has selector .name :: args.map (.has · .expression)
  | unary operator operand => [.declared operator .prefixOp, .has operand .expression]
  | binary operator left right _ =>
      [.declared operator .infixOp, .has left .expression, .has right .expression]
  | assignment name ty value =>
      .has name .name :: (ty.toList.map (.has · .type) ++ [.has value .expression])
  | returned value => [.has value .expression]
  | deferred inner => [.has inner .plainBlock]
  | block body ret => body.map (.has · .statement) ++ ret.toList.map (.has · .returned)
  | signature name receiver params returnType _ =>
      .has receiver .type :: .has name .name ::
        (params.map (.has · .pair) ++ returnType.toList.map (.has · .type))
  | method head body => [.has head .signature, .has body .block]
  | typeDef name properties _ constructor traits =>
      .has name .typeName :: (properties.map (.has · .pair) ++
        (constructor.toList.map (.has · .signature) ++ traits.map (.has · .typeName)))
  | within outer => [.has outer .typeName]
  | withApis apis => apis.map (.has · .typeName)
  | annotationCall _ parameters => parameters.map (.has · .anything)
  | api name inside others body =>
      .has name .typeName :: (inside.toList.map (.has · .within) ++
        (others.toList.map (.has · .withApis) ++ body.map (.has · .declaration)))
  | program apis annotations => annotations.map (.has · .annotationCall) ++ apis.map (.has · .api)

/-- What is required is about the slots, each in its turn. -/
theorem subjects_requires (e : Expr) : e.requires.filterMap Known.subject? = e.children := by
  have hmap : ∀ (ids : List NodeId) (r : Role),
      (ids.map (Known.has · r)).filterMap Known.subject? = ids := by
    intro ids r
    rw [List.filterMap_map]
    exact List.filterMap_some
  cases e <;>
    simp [requires, children, hmap, List.filterMap_append, List.filterMap_cons, Known.subject?]

/-- Something is required of every slot. -/
theorem exists_required {e : Expr} {c : NodeId} (h : c ∈ e.children) :
    ∃ r, Known.has c r ∈ e.requires := by
  rw [← subjects_requires, List.mem_filterMap] at h
  obtain ⟨k, hk, hsubject⟩ := h
  cases k with
  | has id r =>
    cases hsubject
    exact ⟨r, hk⟩
  | declared symbol fixity => cases hsubject

end Expr

/-- What is known holds of the arena and the operators. -/
def Known.Holds (a : Arena) (t : OperatorTable) : Known → Prop
  | has id role => ∃ e, a.expr id = .ok e ∧ role.admits e
  | declared symbol fixity => t.contains symbol fixity

end ApiSyntax
