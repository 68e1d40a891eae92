/-
  ApiSyntax/Proofs/Arena/SourceOrder.lean --- where the children of a node stand in the text.

  A subtree stands where the first of its tokens does.  Most nodes list their children in the
  order in which these stand in the text.  Some have copies among their children, which stand
  where the text stands that they are copies of, and a program lists its annotations ahead
  of its APIs; `Expr.Arranged` says for each kind of contents which order the children are in.
-/
import ApiSyntax.Proofs.Arena.Ancestry
import Mathlib.Order.Bounds.Basic
import Mathlib.Order.WellFounded

set_option autoImplicit false

namespace ApiSyntax

open Relation

/-! ## Orders of children -/

namespace Expr

/-- The children are listed as they stand in the text.  Not so those of an instance signature, of a
type with a constructor and of a program. -/
def listsInOrder : Expr → Bool
  | signature _ _ _ _ isStatic => isStatic
  | typeDef _ _ _ constructor _ => constructor.isNone
  | program .. => false
  | _ => true

/-- What is listed as the children of a node is in the order that belongs to its contents, where `R`
says that one of them does not stand behind another.  The node may be the constructor of a type if
`made` holds. -/
inductive Arranged {α : Type} (made : Prop) (R : α → α → Prop) : Expr → List α → Prop
  /-- The children stand as they are listed. -/
  | plain {e : Expr} {cs : List α} (shape : e.listsInOrder) (order : cs.Pairwise R) :
      Arranged made R e cs
  /-- The parameter that names the receiver stands ahead of the receiver, which is a copy of its type,
  and of the name; it is listed behind them. -/
  | named {name receiver self : NodeId} {params : List NodeId} {result : Option NodeId}
      {copy method first : α} {rest : List α} (order : (first :: copy :: method :: rest).Pairwise R) :
      Arranged made R (signature name receiver (self :: params) result false)
        (copy :: method :: first :: rest)
  /-- The result of a constructor is a copy of the name of its type, which stands ahead of the
  parameters; it is listed last. -/
  | constructs {name receiver result : NodeId} {params : List NodeId} {copy method returned : α}
      {properties : List α} (isMade : made)
      (order : (copy :: method :: returned :: properties).Pairwise R) :
      Arranged made R (signature name receiver params (some result) true)
        (copy :: method :: (properties ++ [returned]))
  /-- The constructor of a type begins with a copy of the name of the type, which stands ahead of the
  properties; it is listed behind them. -/
  | typed {name constructor : NodeId} {properties traits : List NodeId}
      {propertyOrder : List (String × Nat)} {typeName call : α} {pairs others : List α}
      (length : pairs.length = properties.length)
      (order : (typeName :: call :: (pairs ++ others)).Pairwise R) :
      Arranged made R (typeDef name properties propertyOrder (some constructor) traits)
        (typeName :: (pairs ++ call :: others))
  /-- Annotations and APIs stand as they are listed among themselves, the ones between the others;
  all annotations are listed first. -/
  | merged {apis annotations : List NodeId} {calls declared all : List α}
      (length : calls.length = annotations.length) (perm : all.Perm (calls ++ declared))
      (annotated : calls.Sublist all) (others : declared.Sublist all) (order : all.Pairwise R) :
      Arranged made R (program apis annotations) (calls ++ declared)

theorem Arranged.map {α β : Type} {made made' : Prop} {R : α → α → Prop} {R' : β → β → Prop}
    {e : Expr} {cs : List α} {f : α → β} (h : e.Arranged made R cs) (hmade : made → made')
    (hR : ∀ x ∈ cs, ∀ y ∈ cs, R x y → R' (f x) (f y)) : e.Arranged made' R' (cs.map f) := by
  have hmap : ∀ {l : List α}, l ⊆ cs → l.Pairwise R → (l.map f).Pairwise R' := by
    intro l hl hpairs
    exact List.pairwise_map.mpr (hpairs.imp_of_mem fun hx hy => hR _ (hl hx) _ (hl hy))
  cases h with
  | plain shape order => exact .plain shape (hmap (fun _ => id) order)
  | named order =>
    have hall := hmap (fun x hx => by simp only [List.mem_cons] at hx ⊢; tauto) order
    exact .named hall
  | constructs isMade order =>
    have hall := hmap (fun x hx => by simp only [List.mem_cons, List.mem_append] at hx ⊢; tauto) order
    simp only [List.map_cons, List.map_append, List.map_nil] at hall ⊢
    exact .constructs (hmade isMade) hall
  | typed length order =>
    have hall := hmap (fun x hx => by simp only [List.mem_cons, List.mem_append] at hx ⊢; tauto) order
    simp only [List.map_cons, List.map_append] at hall ⊢
    exact .typed ((List.length_map f).trans length) hall
  | merged length perm annotated others order =>
    have hall := hmap perm.subset order
    rw [List.map_append]
    refine .merged ((List.length_map f).trans length) ?_ (annotated.map f) (others.map f) hall
    rw [← List.map_append]
    exact perm.map f

theorem Arranged.imp {α : Type} {made made' : Prop} {R : α → α → Prop} {e : Expr} {cs : List α}
    (h : e.Arranged made R cs) (hmade : made → made') : e.Arranged made' R cs := by
  have hmap : e.Arranged made' R (cs.map id) := h.map hmade fun _ _ _ _ => id
  rwa [List.map_id] at hmap

end Expr

/-! ## Places of subtrees -/

namespace Tree

/-- No token of `u` stands ahead of all tokens of `t`. -/
def NotBehind (t u : Tree) : Prop :=
  ∀ v ∈ u.subtrees, ∃ w ∈ t.subtrees, w.token.span.offset ≤ v.token.span.offset

/-- In `t` there is a type that has `u` as its constructor. -/
def Makes (t u : Tree) : Prop :=
  ∃ v ∈ t.subtrees, ∃ name properties order traits,
    v.expr = .typeDef name properties order (some u.root) traits

/-- The children of all nodes of the tree are in order. -/
def IsArranged (t : Tree) : Prop :=
  ∀ u ∈ t.subtrees, u.expr.Arranged (t.Makes u) NotBehind u.children

theorem Makes.above {t u c : Tree} (h : c.Makes u) (hc : c ∈ t.children) : t.Makes u := by
  obtain ⟨v, hv, hexpr⟩ := h
  exact ⟨v, mem_subtrees_trans hv (mem_subtrees_of_mem_children hc), hexpr⟩

end Tree

namespace Arena

variable {a : Arena} {t u : Tree} {c d x : NodeId}

/-- The offsets of the tokens of the nodes at and below a handle. -/
def offsets (a : Arena) (id : NodeId) : Set Nat :=
  {k | ∃ x n, ReflTransGen a.Child id x ∧ a.node? x = some n ∧ n.token.span.offset = k}

/-- The smallest offset at and below `c` is not larger than the smallest one at and below `d`. -/
def NotBehind (a : Arena) (c d : NodeId) : Prop :=
  ∃ i j, IsLeast (a.offsets c) i ∧ IsLeast (a.offsets d) j ∧ i ≤ j

theorem not_notBehind {k : Nat} (hd : k ∈ a.offsets d) (hc : ∀ i ∈ a.offsets c, k < i) :
    ¬ a.NotBehind c d := by
  rintro ⟨i, j, hi, hj, hle⟩
  exact Nat.not_lt.mpr (hle.trans (hj.2 hd)) (hc i hi.1)

/-- Nodes behind `k` that have only such children have no token at `k` or ahead of it below them. -/
theorem lt_of_mem_offsets {k : Nat}
    (hclosed : ∀ n ∈ a.nodes, k < n.token.span.offset → ∀ c ∈ n.expr.children,
      ∀ m, a.node? c = some m → k < m.token.span.offset)
    {n : Node} (hn : a.node? c = some n) (hk : k < n.token.span.offset) :
    ∀ i ∈ a.offsets c, k < i := by
  rintro _ ⟨x, m, hreach, hm, rfl⟩
  induction hreach generalizing m with
  | refl => exact Option.some.inj (hn.symm.trans hm) ▸ hk
  | @tail p x _ hchild ih =>
    obtain ⟨q, hq, hslot⟩ := hchild
    exact hclosed q (Array.mem_of_getElem? hq) (ih q hq) x hslot m hm

/-- A type that can be reached from `root` has `id` as its constructor. -/
def Makes (a : Arena) (root id : NodeId) : Prop :=
  ∃ p n name properties order traits, ReflTransGen a.Child root p ∧ a.node? p = some n ∧
    n.expr = .typeDef name properties order (some id) traits

/-- What can be reached from the root of a tree that is held are the roots of its subtrees. -/
theorem Holds.reaches_iff (h : a.Holds t) :
    ReflTransGen a.Child t.root x ↔ ∃ v ∈ t.subtrees, v.root = x := by
  constructor
  · intro hreach
    obtain rfl | hbelow := reflTransGen_iff_eq_or_transGen.mp hreach
    · exact ⟨t, t.self_mem_subtrees, rfl⟩
    · obtain ⟨c, hc, v, hv, hroot⟩ := exists_below h hbelow
      exact ⟨v, Tree.mem_subtrees_trans hv (Tree.mem_subtrees_of_mem_children hc), hroot⟩
  · rintro ⟨v, hv, rfl⟩
    induction t with
    | node id token expr children ih =>
      obtain rfl | ⟨c, hc, hv⟩ := Tree.mem_subtrees.mp hv
      · exact .refl
      · exact .head (h.shows.child_iff.mpr ⟨c, hc, rfl⟩) (ih c hc (h.child hc) hv)

theorem Holds.mem_offsets (h : a.Holds t) {k : Nat} :
    k ∈ a.offsets t.root ↔ ∃ v ∈ t.subtrees, v.token.span.offset = k := by
  constructor
  · rintro ⟨x, n, hreach, hn, rfl⟩
    obtain ⟨v, hv, rfl⟩ := h.reaches_iff.mp hreach
    obtain ⟨tags, hfound⟩ := (h v hv).found
    cases hn.symm.trans hfound
    exact ⟨v, hv, rfl⟩
  · rintro ⟨v, hv, rfl⟩
    obtain ⟨tags, hfound⟩ := (h v hv).found
    exact ⟨v.root, _, h.reaches_iff.mpr ⟨v, hv, rfl⟩, hfound, rfl⟩

theorem Holds.exists_isLeast (h : a.Holds t) : ∃ k, IsLeast (a.offsets t.root) k := by
  have hsome : (a.offsets t.root).Nonempty := ⟨_, h.mem_offsets.mpr ⟨t, t.self_mem_subtrees, rfl⟩⟩
  exact ⟨_, WellFounded.min_mem Nat.lt_wfRel.wf _ hsome,
    fun k hk => Nat.not_lt.mp (WellFounded.not_lt_min Nat.lt_wfRel.wf _ hk)⟩

theorem Holds.notBehind (ht : a.Holds t) (hu : a.Holds u) (h : t.NotBehind u) :
    a.NotBehind t.root u.root := by
  obtain ⟨i, hi⟩ := ht.exists_isLeast
  obtain ⟨j, hj⟩ := hu.exists_isLeast
  obtain ⟨v, hv, rfl⟩ := hu.mem_offsets.mp hj.1
  obtain ⟨w, hw, hle⟩ := h v hv
  exact ⟨i, _, hi, hj, Nat.le_trans (hi.2 (ht.mem_offsets.mpr ⟨w, hw, rfl⟩)) hle⟩

theorem Holds.makes (h : a.Holds t) (hu : t.Makes u) : a.Makes t.root u.root := by
  obtain ⟨v, hv, name, properties, order, traits, hexpr⟩ := hu
  obtain ⟨tags, hfound⟩ := (h v hv).found
  exact ⟨v.root, _, name, properties, order, traits, h.reaches_iff.mpr ⟨v, hv, rfl⟩, hfound, hexpr⟩

/-- In an arena that holds a tree the children of its nodes are in the order that they have in the
tree. -/
theorem Holds.arranged (h : a.Holds t) (ht : t.IsArranged) {id : NodeId} {n : Node}
    (hreach : ReflTransGen a.Child t.root id) (hn : a.node? id = some n) :
    n.expr.Arranged (a.Makes t.root id) a.NotBehind n.expr.children := by
  obtain ⟨u, hu, rfl⟩ := h.reaches_iff.mp hreach
  obtain ⟨tags, hfound⟩ := (h u hu).found
  cases hn.symm.trans hfound
  have hholds := h.subtree hu
  rw [(h u hu).slots]
  exact (ht u hu).map h.makes fun c hc d hd hcd =>
    (hholds.child hc).notBehind (hholds.child hd) hcd

end Arena

end ApiSyntax
