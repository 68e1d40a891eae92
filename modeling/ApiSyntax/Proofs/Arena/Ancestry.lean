/-
  ApiSyntax/Proofs/Arena/Ancestry.lean --- who is whose child in an arena of trees.

  The nodes of a forest are in one child slot at most, and those at a root in none.  So
  the parent of a node can be looked up from below, and looking up parents again and
  again leads from any node of a tree to its root.
-/
import ApiSyntax.Proofs.Arena.Growth
import Mathlib.Data.List.Flatten
import Mathlib.Data.List.Range
import Mathlib.Logic.Relation

set_option autoImplicit false

namespace ApiSyntax.Arena

/-! ## Children and parents -/

/-- `c` is in a child slot of `p`. -/
def Child (a : Arena) (p c : NodeId) : Prop :=
  ∃ n, a.node? p = some n ∧ c ∈ n.expr.children

/-- All child slots of the arena. -/
def slots (a : Arena) : List NodeId := a.nodes.toList.flatMap fun n => n.expr.children

/-- Looking up parents leads from `id` to `top`, which has none. -/
inductive Climbs (a : Arena) (top : NodeId) : NodeId → Prop
  | top (h : a.findParent top = .ok none) : Climbs a top top
  | up {id parent : NodeId} (h : a.findParent id = .ok (some parent)) (rest : Climbs a top parent) :
      Climbs a top id

/-- Every node carries its handle, every slot holds a node of the arena and no two slots the same
one, and no node is below itself. -/
structure IsForest (a : Arena) : Prop where
  ids : ∀ (i : Nat) (n : Node), a.nodes[i]? = some n → n.id = ⟨i⟩
  inside : ∀ c ∈ a.slots, c.index < a.size
  apart : a.slots.Nodup
  acyclic : ∀ id, ¬Relation.TransGen a.Child id id

/-- The handle is that of a tree: it is in no slot, and from all that is below it looking up
parents leads to it. -/
structure IsRoot (a : Arena) (root : NodeId) : Prop where
  found : root.index < a.size
  free : root ∉ a.slots
  climbs : ∀ id, Relation.ReflTransGen a.Child root id → a.Climbs root id

/-- The child slots of the node of a handle; of a foreign handle, none. -/
def slotsAt (a : Arena) (id : NodeId) : List NodeId :=
  ((a.node? id).map fun n => n.expr.children).getD []

variable {a : Arena} {ts : List Tree} {t : Tree}

theorem Shows.slotsAt (h : a.Shows t) : a.slotsAt t.root = t.children.map Tree.root := by
  obtain ⟨tags, hfound⟩ := h.found
  rw [Arena.slotsAt, hfound]
  exact h.slots

theorem flatMap_eq_range {α β : Type} (l : List α) (f : α → List β) :
    l.flatMap f = (List.range l.length).flatMap fun i => ((l[i]?).map f).getD [] := by
  induction l with
  | nil => rfl
  | cons x l ih =>
    rw [List.length_cons, List.range_succ_eq_map, List.flatMap_cons, List.flatMap_cons,
      List.flatMap_map, ih]
    rfl

/-- The slots of the arena are those of its handles. -/
theorem slots_eq (a : Arena) :
    a.slots = ((List.range a.size).map NodeId.mk).flatMap a.slotsAt := by
  rw [slots, flatMap_eq_range, List.flatMap_map, Array.length_toList]
  refine List.flatMap_congr fun i _ => ?_
  rw [Array.getElem?_toList]
  rfl

theorem handlesOf_perm_slots (h : ∀ t ∈ ts,
      t.handles.Perm (t.root :: t.handles.flatMap a.slotsAt)) :
    (Tree.handlesOf ts).Perm
      (ts.map Tree.root ++ (Tree.handlesOf ts).flatMap a.slotsAt) := by
  induction ts with
  | nil => exact .refl _
  | cons t ts ih =>
    have hrest := ih fun u hu => h u (List.mem_cons_of_mem _ hu)
    rw [Tree.handlesOf_cons, List.map_cons, List.flatMap_append, List.cons_append]
    refine ((h t List.mem_cons_self).append hrest).trans ?_
    rw [List.cons_append]
    exact .cons _ (List.perm_append_comm_assoc ..)

/-- The handles of a tree are its root and what is in the slots of its nodes. -/
theorem handles_perm_slots (h : a.Holds t) :
    t.handles.Perm (t.root :: t.handles.flatMap a.slotsAt) := by
  induction t with
  | node id token expr cs ih =>
    have hslots : a.slotsAt id = cs.map Tree.root := h.shows.slotsAt
    rw [Tree.handles_node, Tree.root_node, List.flatMap_cons, hslots]
    exact .cons _ (handlesOf_perm_slots fun c hc => ih c hc (h.child hc))

/-! ## Forests -/

namespace Forest

/-- The handles of the trees are the handles of the arena. -/
theorem handles_perm (h : Forest .empty a ts) :
    (Tree.handlesOf ts).Perm ((List.range a.size).map NodeId.mk) := by
  have hinj : Function.Injective NodeId.mk := fun i j hij => NodeId.mk.inj hij
  refine (List.perm_ext_iff_of_nodup h.nodup (List.nodup_range.map hinj)).mpr fun id => ?_
  rw [h.mem_handles]
  cases id
  simp [Arena.empty, Arena.size]

/-- All handles are the roots and what is in the slots. -/
theorem handles_split (h : Forest .empty a ts) :
    (Tree.handlesOf ts).Perm (ts.map Tree.root ++ a.slots) := by
  refine (handlesOf_perm_slots fun t ht => handles_perm_slots (h.holds t ht)).trans ?_
  rw [slots_eq]
  exact (h.handles_perm.flatMap_right _).append_left _

/-- No two slots hold the same handle. -/
theorem slots_nodup (h : Forest .empty a ts) : a.slots.Nodup :=
  (List.nodup_append'.mp (h.handles_split.nodup_iff.mp h.nodup)).2.1

/-- The roots are in no slot. -/
theorem root_not_mem_slots (h : Forest .empty a ts) (ht : t ∈ ts) : t.root ∉ a.slots := by
  have hapart := (List.nodup_append'.mp (h.handles_split.nodup_iff.mp h.nodup)).2.2
  exact hapart (List.mem_map_of_mem ht)

/-- Every handle of the arena is the root of a subtree. -/
theorem exists_subtree (h : Forest .empty a ts) {id : NodeId} (hid : id.index < a.size) :
    ∃ t ∈ ts, ∃ u ∈ t.subtrees, u.root = id := by
  have hmem : id ∈ Tree.handlesOf ts := (h.mem_handles id).mpr ⟨Nat.zero_le _, hid⟩
  obtain ⟨t, ht, hid⟩ := Tree.mem_handlesOf.mp hmem
  obtain ⟨u, hu, rfl⟩ := List.mem_map.mp hid
  exact ⟨t, ht, u, hu, rfl⟩

end Forest

/-! ## What is below a node -/

theorem Shows.child_iff (h : a.Shows t) {id : NodeId} :
    a.Child t.root id ↔ ∃ c ∈ t.children, c.root = id := by
  obtain ⟨tags, hfound⟩ := h.found
  have hslots : ∀ n, a.node? t.root = some n → n.expr.children = t.children.map Tree.root := by
    intro n hn
    rw [hfound] at hn
    cases hn
    exact h.slots
  constructor
  · rintro ⟨n, hn, hid⟩
    rw [hslots n hn] at hid
    exact List.mem_map.mp hid
  · intro hid
    exact ⟨_, hfound, by rw [hslots _ hfound]; exact List.mem_map.mpr hid⟩

/-- What is below the root of a tree that is held is the root of one of its proper subtrees. -/
theorem exists_below (h : a.Holds t) {id : NodeId} (hbelow : Relation.TransGen a.Child t.root id) :
    ∃ c ∈ t.children, ∃ u ∈ c.subtrees, u.root = id := by
  induction hbelow with
  | single hchild =>
    obtain ⟨c, hc, rfl⟩ := h.shows.child_iff.mp hchild
    exact ⟨c, hc, c, c.self_mem_subtrees, rfl⟩
  | tail _ hchild ih =>
    obtain ⟨c, hc, u, hu, rfl⟩ := ih
    obtain ⟨v, hv, rfl⟩ := (((h.child hc).subtree hu).shows.child_iff).mp hchild
    exact ⟨c, hc, v, Tree.mem_subtrees_trans (Tree.mem_subtrees_of_mem_children hv) hu, rfl⟩

/-! ## Looking up parents -/

/-- A handle that is in one slot at most is listed by one node at most. -/
theorem parents_cases {id : NodeId} (h : a.slots.count id ≤ 1) :
    (a.nodes.toList.filter fun n => n.expr.hasChild id) = [] ∨
      ∃ n, (a.nodes.toList.filter fun n => n.expr.hasChild id) = [n] := by
  have hsub : (a.nodes.toList.filter fun n => n.expr.hasChild id).Sublist a.nodes.toList :=
    List.filter_sublist
  have hlists : ∀ n ∈ a.nodes.toList.filter fun n => n.expr.hasChild id, id ∈ n.expr.children := by
    intro n hn
    simpa [Expr.hasChild] using (List.mem_filter.mp hn).2
  have hcount := (hsub.flatMap fun n => n.expr.children).count_le id
  generalize (a.nodes.toList.filter fun n => n.expr.hasChild id) = parents at hlists hcount
  rcases parents with _ | ⟨n, _ | ⟨m, rest⟩⟩
  · exact .inl rfl
  · exact .inr ⟨n, rfl⟩
  · have hn := List.count_pos_iff.mpr (hlists n List.mem_cons_self)
    have hm := List.count_pos_iff.mpr (hlists m (List.mem_cons_of_mem _ List.mem_cons_self))
    simp only [List.flatMap_cons, List.count_append] at hcount
    rw [slots] at h
    omega

/-- Looking up a parent never finds two. -/
theorem findParent_ok (h : a.slots.Nodup) (id : NodeId) : ∃ parent, a.findParent id = .ok parent := by
  unfold findParent parents
  rcases parents_cases (List.nodup_iff_count_le_one.mp h id) with hnone | ⟨n, hone⟩
  · rw [hnone]
    exact ⟨none, rfl⟩
  · rw [hone]
    exact ⟨some n.id, rfl⟩

theorem findParent_of_free {id : NodeId} (h : id ∉ a.slots) : a.findParent id = .ok none := by
  have hnone : (a.nodes.toList.filter fun n => n.expr.hasChild id) = [] := by
    refine List.filter_eq_nil_iff.mpr fun n hn hchild => h ?_
    exact List.mem_flatMap.mpr ⟨n, hn, by simpa [Expr.hasChild] using hchild⟩
  rw [findParent, parents, hnone]
  rfl

/-- The node in whose slot a handle is, if the handle is in no other slot. -/
theorem findParent_of_count {p c : NodeId} {n : Node} (h : a.slots.count c ≤ 1)
    (hn : a.node? p = some n) (hc : c ∈ n.expr.children) : a.findParent c = .ok (some n.id) := by
  have hmem : n ∈ a.nodes.toList.filter fun n => n.expr.hasChild c := by
    refine List.mem_filter.mpr ⟨?_, by simpa [Expr.hasChild] using hc⟩
    exact Array.mem_toList_iff.mpr (Array.mem_of_getElem? hn)
  unfold findParent parents
  rcases parents_cases h with hnone | ⟨m, hone⟩
  · rw [hnone] at hmem
    exact absurd hmem List.not_mem_nil
  · rw [hone] at hmem ⊢
    obtain rfl := List.mem_singleton.mp hmem
    rfl

theorem findParent_of_child (h : a.IsForest) {p c : NodeId} (hchild : a.Child p c) :
    a.findParent c = .ok (some p) := by
  obtain ⟨n, hn, hc⟩ := hchild
  have hid : n.id = p := h.ids p.index n hn
  rw [findParent_of_count (List.nodup_iff_count_le_one.mp h.apart c) hn hc, hid]

/-! ## Arenas of trees -/

/-- An arena that trees make up is a forest. -/
theorem Forest.isForest (h : Forest .empty a ts) : a.IsForest where
  ids i n hn := by
    have hi : (NodeId.mk i).index < a.size := (Array.getElem?_eq_some_iff.mp hn).1
    obtain ⟨t, ht, u, hu, hroot⟩ := h.exists_subtree hi
    obtain ⟨tags, hfound⟩ := (h.holds t ht u hu).found
    have hnode : a.node? u.root = some n := by
      rw [hroot]
      exact hn
    rw [hnode] at hfound
    cases hfound
    exact hroot
  inside c hc := by
    have hmem : c ∈ Tree.handlesOf ts := h.handles_split.mem_iff.mpr (List.mem_append_right _ hc)
    exact ((h.mem_handles c).mp hmem).2
  apart := h.slots_nodup
  acyclic id hcycle := by
    have hfound : id.index < a.size := by
      obtain ⟨c, ⟨n, hn, _⟩, _⟩ := Relation.TransGen.head'_iff.mp hcycle
      exact (Array.getElem?_eq_some_iff.mp hn).1
    obtain ⟨t, ht, u, hu, rfl⟩ := h.exists_subtree hfound
    obtain ⟨c, hc, v, hv, hroot⟩ := exists_below ((h.holds t ht).subtree hu) hcycle
    have hnodup : u.handles.Nodup := by
      obtain ⟨us, hus⟩ := h.front ht
      exact hus.nodup_handles.sublist (Tree.handles_sublist_of_mem_subtrees hu)
    cases u with
    | node id token expr children =>
      rw [Tree.handles_node] at hnodup
      have hmem : v.root ∈ c.handles := List.mem_map_of_mem hv
      rw [hroot] at hmem
      exact (List.nodup_cons.mp hnodup).1 (Tree.mem_handlesOf.mpr ⟨c, hc, hmem⟩)

/-- The root of each of the trees is a root of the arena. -/
theorem Forest.isRoot (h : Forest .empty a ts) (ht : t ∈ ts) : a.IsRoot t.root where
  found := (h.holds t ht).shows.lt_size
  free := h.root_not_mem_slots ht
  climbs id hbelow := by
    induction hbelow with
    | refl => exact .top (findParent_of_free (h.root_not_mem_slots ht))
    | tail _ hchild ih => exact .up (findParent_of_child h.isForest hchild) ih

end ApiSyntax.Arena
