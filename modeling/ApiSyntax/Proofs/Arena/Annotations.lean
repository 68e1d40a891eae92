/-
  ApiSyntax/Proofs/Arena/Annotations.lean --- the annotations of an arena, and what they do.

  An annotation has an effect: the call that its extension makes, read off its node and the
  signatures below it.  All of these nodes keep their contents when the arena is followed by
  another one, so an effect once read stays the same, and the annotations of the arena that
  follows are the old ones and those among the nodes behind.
-/
import Mathlib.Data.List.Forall2
import Mathlib.Logic.Relation
import ApiSyntax.Proofs.Arena.Ancestry
import ApiSyntax.Proofs.Arena.Follows
import ApiSyntax.Proofs.Operators.Calls

set_option autoImplicit false

namespace ApiSyntax.Arena

variable {a b c : Arena} {id : NodeId} {e : Expr}

/-! ## Annotations in their order -/

/-- The node is an annotation. -/
def isAnnotationCall (a : Arena) (id : NodeId) : Bool :=
  (a.expr id).toOption.any fun e => e.kind == .annotationCall

/-- The annotations, in the order in which they were made. -/
def annotations (a : Arena) : List NodeId := ((List.range a.size).map NodeId.mk).filter a.isAnnotationCall

theorem isAnnotationCall_iff :
    a.isAnnotationCall id ↔ ∃ e, a.expr id = .ok e ∧ e.kind = .annotationCall := by
  unfold isAnnotationCall
  cases a.expr id <;> simp [Except.toOption]

theorem Follows.size_le (h : a.Follows b) : a.size ≤ b.size := by
  by_contra hlt
  obtain ⟨n, hn⟩ : ∃ n, a.node? ⟨b.size⟩ = some n :=
    ⟨_, Array.getElem?_eq_getElem (Nat.lt_of_not_le hlt)⟩
  obtain ⟨n', hn', -⟩ := h _ n hn
  exact Nat.lt_irrefl _ (lt_size_of_node? hn')

theorem lt_size_of_expr (h : a.expr id = .ok e) : id.index < a.size := by
  obtain ⟨n, hn, -⟩ := expr_eq_ok.mp h
  exact lt_size_of_node? hn

theorem exists_expr (h : id.index < a.size) : ∃ e, a.expr id = .ok e :=
  ⟨_, expr_eq_ok.mpr ⟨_, Array.getElem?_eq_getElem h, rfl⟩⟩

theorem mem_annotations :
    id ∈ a.annotations ↔ ∃ name params, a.expr id = .ok (.annotationCall name params) := by
  have hrange : id ∈ (List.range a.size).map NodeId.mk ↔ id.index < a.size := by
    simp only [List.mem_map, List.mem_range]
    exact ⟨fun ⟨n, hn, hid⟩ => hid ▸ hn, fun h => ⟨id.index, h, rfl⟩⟩
  rw [annotations, List.mem_filter, hrange, isAnnotationCall_iff]
  constructor
  · rintro ⟨-, e, he, hkind⟩
    cases e <;> first | exact ⟨_, _, he⟩ | cases hkind
  · rintro ⟨name, params, he⟩
    exact ⟨lt_size_of_expr he, _, he, rfl⟩

/-- An old node is an annotation if it was one. -/
theorem Follows.isAnnotationCall (h : a.Follows b) (hid : id.index < a.size) :
    b.isAnnotationCall id = a.isAnnotationCall id := by
  obtain ⟨e, he⟩ := exists_expr hid
  obtain ⟨e', he', halike⟩ := h.expr he
  simp only [Arena.isAnnotationCall, he, he', halike.kind_eq, Except.toOption, Option.any_some]

/-- The annotations are the old ones, and those among the nodes behind. -/
theorem Follows.annotations (h : a.Follows b) :
    b.annotations = a.annotations ++
      ((List.range' a.size (b.size - a.size)).map NodeId.mk).filter b.isAnnotationCall := by
  have hsplit : List.range b.size = List.range a.size ++ List.range' a.size (b.size - a.size) := by
    have happend := List.range'_append_1 (s := 0) (m := a.size) (n := b.size - a.size)
    rw [Nat.zero_add, Nat.add_sub_cancel' h.size_le] at happend
    rw [List.range_eq_range', List.range_eq_range', happend]
  have hold : ((List.range a.size).map NodeId.mk).filter b.isAnnotationCall = a.annotations := by
    apply List.filter_congr
    intro id hid
    obtain ⟨n, hn, rfl⟩ := List.mem_map.mp hid
    exact h.isAnnotationCall (List.mem_range.mp hn)
  rw [Arena.annotations, hsplit, List.map_append, List.filter_append, hold]

/-- Without a new annotation the annotations are the old ones. -/
theorem Follows.annotations_eq (h : a.Follows b)
    (hnew : ∀ id e, b.expr id = .ok e → e.kind = .annotationCall → a.expr id = .ok e) :
    b.annotations = a.annotations := by
  rw [h.annotations, List.append_right_eq_self, List.filter_eq_nil_iff]
  intro id hid hannotation
  obtain ⟨n, hn, rfl⟩ := List.mem_map.mp hid
  obtain ⟨e, he, hkind⟩ := isAnnotationCall_iff.mp hannotation
  have hlt := lt_size_of_expr (hnew _ e he hkind)
  have hle := (List.mem_range'_1.mp hn).1
  exact absurd hlt (Nat.not_lt.mpr hle)

theorem annotations_push (a : Arena) (token : Token) (e : Expr) :
    (a.push token e).annotations =
      a.annotations ++ if e.kind = .annotationCall then [a.next] else [] := by
  have hnext : (a.push token e).isAnnotationCall ⟨a.size⟩ = decide (e.kind = .annotationCall) := by
    rw [isAnnotationCall, show (⟨a.size⟩ : NodeId) = a.next from rfl, expr_push_next]
    rfl
  rw [(Follows.push a token e).annotations, size_push, Nat.add_sub_cancel_left]
  by_cases hkind : e.kind = .annotationCall
  · simp [hnext, hkind, next]
  · simp [hnext, hkind]

/-! ## Effects -/

/-- The node is a signature of this name. -/
def Signs (a : Arena) (id : NodeId) (name : String) : Prop :=
  ∃ n receiver params returnType isStatic,
    a.expr id = .ok (.signature n receiver params returnType isStatic) ∧
      a.expr n = .ok (.identifier name)

/-- The call that an annotation makes: the name of its signature becomes an operator, or the name of
its first signature binds tighter than that of its second. -/
inductive Effect (a : Arena) (id : NodeId) : OperatorTable.Call → Prop
  | infixOp {sig : NodeId} {name : String}
      (node : a.expr id = .ok (.annotationCall "Operator.Infix" [sig])) (sign : a.Signs sig name) :
      Effect a id (.declare name .infixOp)
  | prefixOp {sig : NodeId} {name : String}
      (node : a.expr id = .ok (.annotationCall "Operator.Prefix" [sig])) (sign : a.Signs sig name) :
      Effect a id (.declare name .prefixOp)
  | tighter {left right : NodeId} {name other : String}
      (node : a.expr id = .ok (.annotationCall "Operator.Binds" [left, right]))
      (sign : a.Signs left name) (sign' : a.Signs right other) :
      Effect a id (.relate name other .greater)

theorem Signs.later {name : String} (hab : a.Follows b) (h : a.Signs id name) : b.Signs id name := by
  obtain ⟨n, receiver, params, returnType, isStatic, hsig, hn⟩ := h
  refine ⟨n, receiver, params, returnType, isStatic, ?_, ?_⟩
  · exact hab.expr_of_kind hsig nofun
  · exact hab.expr_of_kind hn nofun

/-- An effect stays the same. -/
theorem Effect.later {call : OperatorTable.Call} (hab : a.Follows b) (h : a.Effect id call) :
    b.Effect id call := by
  cases h with
  | infixOp node sign => exact .infixOp (hab.expr_of_kind node nofun) (sign.later hab)
  | prefixOp node sign => exact .prefixOp (hab.expr_of_kind node nofun) (sign.later hab)
  | tighter node sign sign' =>
    exact .tighter (hab.expr_of_kind node nofun) (sign.later hab) (sign'.later hab)

/-! ## Nodes below -/

/-- A node is below another one, and all in between are no binaries. -/
def Above (a : Arena) (top id : NodeId) : Prop :=
  Relation.ReflTransGen (fun p c => ∃ e, a.expr p = .ok e ∧ e.kind ≠ .binary ∧ c ∈ e.children) top id

theorem Above.later (hab : a.Follows b) {top : NodeId} (h : a.Above top id) : b.Above top id := by
  refine Relation.ReflTransGen.mono ?_ _ _ h
  rintro p c ⟨e, he, hkind, hc⟩
  exact ⟨e, hab.expr_of_kind he hkind, hkind, hc⟩

theorem Above.reaches {top : NodeId} (h : a.Above top id) : Relation.ReflTransGen a.Child top id := by
  refine Relation.ReflTransGen.mono ?_ _ _ h
  rintro p c ⟨e, he, -, hc⟩
  obtain ⟨n, hn, rfl⟩ := expr_eq_ok.mp he
  exact ⟨n, hn, hc⟩

/-- What is below a slot is below the node. -/
theorem Above.of_slot {top slot : NodeId} (he : a.expr top = .ok e) (hkind : e.kind ≠ .binary)
    (hslot : slot ∈ e.children) (h : a.Above slot id) : a.Above top id :=
  .head ⟨e, he, hkind, hslot⟩ h

end ApiSyntax.Arena
