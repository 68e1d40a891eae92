/-
  ApiSyntax/Proofs/Arena/Growth.lean --- what a run adds to an arena.

  A run never touches the nodes that were there before it.  The nodes that it adds form
  a forest: `Forest base a ts` says that they are exactly the nodes of the trees `ts`.
  `Grows base a ts` keeps only those trees in view that something may still be done
  with; the trees that were given up stay in the forest without being named.
-/
import ApiSyntax.Proofs.Arena.Tree
import Mathlib.Data.List.Perm.Subperm

set_option autoImplicit false

namespace ApiSyntax.Arena

/-- The nodes of `base` are as they were, and the nodes behind them are those of `ts`. -/
structure Forest (base a : Arena) (ts : List Tree) : Prop where
  le : base.size ≤ a.size
  kept : ∀ id, id.index < base.size → a.node? id = base.node? id
  holds : ∀ t ∈ ts, a.Holds t
  nodup : (Tree.handlesOf ts).Nodup
  mem_handles : ∀ id, id ∈ Tree.handlesOf ts ↔ base.size ≤ id.index ∧ id.index < a.size

/-- Among the trees that the nodes behind those of `base` form are `ts`. -/
def Grows (base a : Arena) (ts : List Tree) : Prop := ∃ rest, Forest base a (ts ++ rest)

/-- An arena has no more handles than nodes. -/
theorem length_le_size {a : Arena} {ids : List NodeId} (hnodup : ids.Nodup)
    (hids : ∀ id ∈ ids, id.index < a.size) : ids.length ≤ a.size := by
  have hinj : (ids.map NodeId.index).Nodup := by
    refine hnodup.map ?_
    rintro ⟨i⟩ ⟨j⟩ rfl
    rfl
  have hsub : ids.map NodeId.index ⊆ List.range a.size := by
    intro i hi
    obtain ⟨id, hid, rfl⟩ := List.mem_map.mp hi
    exact List.mem_range.mpr (hids id hid)
  have hle := (hinj.subperm hsub).length_le
  rwa [List.length_map, List.length_range] at hle

/-- A tree of different nodes has no more of them than the arena that holds it. -/
theorem Holds.length_handles_le {a : Arena} {t : Tree} (h : a.Holds t) (hnodup : t.handles.Nodup) :
    t.handles.length ≤ a.size := length_le_size hnodup fun _ hid => h.lt_size hid

namespace Forest

variable {a b c : Arena} {ts us : List Tree} {t u : Tree}

theorem refl (a : Arena) : Forest a a [] where
  le := Nat.le_refl _
  kept _ _ := rfl
  holds t ht := absurd ht List.not_mem_nil
  nodup := List.nodup_nil
  mem_handles id := by
    rw [Tree.handlesOf_nil]
    exact ⟨fun h => absurd h List.not_mem_nil, fun h => absurd h.2 (Nat.not_lt.mpr h.1)⟩

theorem perm (h : ts.Perm us) (hf : Forest a b ts) : Forest a b us where
  le := hf.le
  kept := hf.kept
  holds t ht := hf.holds t (h.mem_iff.mpr ht)
  nodup := (Tree.handlesOf_perm h).nodup_iff.mp hf.nodup
  mem_handles id := (Tree.handlesOf_perm h).mem_iff.symm.trans (hf.mem_handles id)

/-- A tree of the forest is still held when later nodes are added. -/
theorem holds_later (h : Forest a b ts) (h' : Forest b c us) (ht : t ∈ ts) : c.Holds t := by
  refine (h.holds t ht).congr fun id hid => h'.kept id ?_
  exact ((h.mem_handles id).mp (Tree.mem_handlesOf.mpr ⟨t, ht, hid⟩)).2

theorem append (h : Forest a b ts) (h' : Forest b c us) : Forest a c (ts ++ us) where
  le := Nat.le_trans h.le h'.le
  kept id hid := (h'.kept id (Nat.lt_of_lt_of_le hid h.le)).trans (h.kept id hid)
  holds t ht := by
    rcases List.mem_append.mp ht with ht | ht
    · exact h.holds_later h' ht
    · exact h'.holds t ht
  nodup := by
    rw [Tree.handlesOf_append]
    refine List.nodup_append'.mpr ⟨h.nodup, h'.nodup, ?_⟩
    intro id hid hid'
    exact Nat.not_lt.mpr ((h'.mem_handles id).mp hid').1 ((h.mem_handles id).mp hid).2
  mem_handles id := by
    have hab := h.le
    have hbc := h'.le
    rw [Tree.handlesOf_append, List.mem_append, h.mem_handles, h'.mem_handles]
    omega

/-- The trees in front become the children of a new node. -/
theorem push {cs : List Tree} (h : Forest a b (cs ++ ts)) (token : Token) (expr : Expr)
    (hslots : expr.children = cs.map Tree.root) :
    Forest a (b.push token expr) (.node b.next token expr cs :: ts) := by
  have hold : ∀ id, id.index < b.size → (b.push token expr).node? id = b.node? id :=
    fun id hid => node?_push_of_lt hid
  have hlt : ∀ id, id ∈ Tree.handlesOf (cs ++ ts) → id.index < b.size :=
    fun id hid => ((h.mem_handles id).mp hid).2
  have hholds : ∀ t ∈ cs ++ ts, (b.push token expr).Holds t := fun t ht =>
    (h.holds t ht).congr fun id hid => hold id (hlt id (Tree.mem_handlesOf.mpr ⟨t, ht, hid⟩))
  have hhandles : Tree.handlesOf (.node b.next token expr cs :: ts) =
      b.next :: Tree.handlesOf (cs ++ ts) := by
    rw [Tree.handlesOf_cons, Tree.handles_node, Tree.handlesOf_append, List.cons_append]
  refine ⟨?_, ?_, ?_, ?_, ?_⟩
  · rw [size_push]
    exact Nat.le_succ_of_le h.le
  · intro id hid
    exact (hold id (Nat.lt_of_lt_of_le hid h.le)).trans (h.kept id hid)
  · intro t ht
    rcases List.mem_cons.mp ht with rfl | ht
    · refine holds_node.mpr ⟨⟨⟨[], node?_push_next b token expr⟩, hslots⟩, ?_⟩
      exact fun c hc => hholds c (List.mem_append_left _ hc)
    · exact hholds t (List.mem_append_right _ ht)
  · rw [hhandles]
    exact List.nodup_cons.mpr ⟨fun hid => Nat.lt_irrefl _ (hlt _ hid), h.nodup⟩
  · intro id
    have hle := h.le
    have hnext : id = b.next ↔ id.index = b.size := by
      cases id
      simp [next]
    rw [hhandles, List.mem_cons, h.mem_handles, hnext, size_push]
    omega

/-- Any tree of the forest may be named first. -/
theorem front (h : Forest a b ts) (ht : t ∈ ts) : ∃ us, Forest a b (t :: us) := by
  obtain ⟨l, r, rfl⟩ := List.append_of_mem ht
  exact ⟨l ++ r, h.perm List.perm_middle⟩

theorem nodup_handles (h : Forest a b (t :: ts)) : t.handles.Nodup := by
  have hall := h.nodup
  rw [Tree.handlesOf_cons] at hall
  exact (List.nodup_append'.mp hall).1

/-- The tree in front is turned into another one with the same nodes. -/
theorem rewrite (h : Forest a b (t :: ts)) (hr : Rewrites b c t u) : Forest a c (u :: ts) := by
  have hperm : (Tree.handlesOf (u :: ts)).Perm (Tree.handlesOf (t :: ts)) := by
    rw [Tree.handlesOf_cons, Tree.handlesOf_cons]
    exact hr.handles.append_right _
  have hnew : ∀ id, id ∈ t.handles → a.size ≤ id.index := fun id hid =>
    ((h.mem_handles id).mp (Tree.mem_handlesOf.mpr ⟨t, List.mem_cons_self, hid⟩)).1
  have hapart : ∀ id, id ∈ t.handles → id ∉ Tree.handlesOf ts := by
    have hall := h.nodup
    rw [Tree.handlesOf_cons] at hall
    exact fun id hid hid' => (List.nodup_append'.mp hall).2.2 hid hid'
  refine ⟨?_, ?_, ?_, ?_, ?_⟩
  · rw [hr.size]
    exact h.le
  · intro id hid
    have hout : id ∉ t.handles := fun hmem => Nat.not_lt.mpr (hnew id hmem) hid
    exact (hr.outside id hout).trans (h.kept id hid)
  · intro v hv
    rcases List.mem_cons.mp hv with rfl | hv
    · exact hr.holds
    · refine (h.holds v (List.mem_cons_of_mem _ hv)).congr fun id hid => hr.outside id ?_
      exact fun hmem => hapart id hmem (Tree.mem_handlesOf.mpr ⟨v, hv, hid⟩)
  · exact hperm.nodup_iff.mpr h.nodup
  · intro id
    rw [hperm.mem_iff, h.mem_handles, hr.size]

/-- There are no more nodes in a tree than in the arena. -/
theorem length_handles_le (h : Forest a b (t :: ts)) : t.handles.length ≤ b.size :=
  (h.holds t List.mem_cons_self).length_handles_le h.nodup_handles

end Forest

namespace Grows

variable {a b c : Arena} {ts us : List Tree} {t u : Tree}

theorem refl (a : Arena) : Grows a a [] := ⟨[], Forest.refl a⟩

/-- Trees may be named in another order, and need not all be named. -/
theorem subperm (h : us.Subperm ts) (hg : Grows a b ts) : Grows a b us := by
  obtain ⟨rest, hrest⟩ := hg
  obtain ⟨ws, hws, hsub⟩ := h
  obtain ⟨zs, hzs⟩ := hsub.exists_perm_append
  have hsplit : ts.Perm (us ++ zs) := hzs.trans (hws.append_right zs)
  refine ⟨zs ++ rest, hrest.perm ?_⟩
  rw [← List.append_assoc]
  exact hsplit.append_right rest

theorem perm (h : ts.Perm us) (hg : Grows a b ts) : Grows a b us := hg.subperm h.symm.subperm

/-- Nothing more is said about the trees. -/
theorem forget (h : Grows a b ts) : Grows a b [] := h.subperm (List.nil_subperm)

theorem append (h : Grows a b ts) (h' : Grows b c us) : Grows a c (ts ++ us) := by
  obtain ⟨rest, hrest⟩ := h
  obtain ⟨rest', hrest'⟩ := h'
  refine ⟨rest ++ rest', (hrest.append hrest').perm ?_⟩
  rw [List.append_assoc, List.append_assoc]
  refine List.Perm.append_left ts ?_
  rw [← List.append_assoc, ← List.append_assoc]
  exact List.perm_append_comm.append_right rest'

theorem push {cs : List Tree} (h : Grows a b (cs ++ ts)) (token : Token) (expr : Expr)
    (hslots : expr.children = cs.map Tree.root) :
    Grows a (b.push token expr) (.node b.next token expr cs :: ts) := by
  obtain ⟨rest, hrest⟩ := h
  rw [List.append_assoc] at hrest
  exact ⟨rest, hrest.push token expr hslots⟩

theorem rewrite (h : Grows a b (t :: ts)) (hr : Rewrites b c t u) : Grows a c (u :: ts) := by
  obtain ⟨rest, hrest⟩ := h
  exact ⟨rest, hrest.rewrite hr⟩

theorem kept (h : Grows a b ts) {id : NodeId} (hid : id.index < a.size) :
    b.node? id = a.node? id := by
  obtain ⟨rest, hrest⟩ := h
  exact hrest.kept id hid

theorem holds (h : Grows a b ts) (ht : t ∈ ts) : b.Holds t := by
  obtain ⟨rest, hrest⟩ := h
  exact hrest.holds t (List.mem_append_left rest ht)

/-- The nodes of the trees are new. -/
theorem size_le_of_mem (h : Grows a b ts) (ht : t ∈ ts) {id : NodeId} (hid : id ∈ t.handles) :
    a.size ≤ id.index := by
  obtain ⟨rest, hrest⟩ := h
  have hmem : id ∈ Tree.handlesOf (ts ++ rest) :=
    Tree.mem_handlesOf.mpr ⟨t, List.mem_append_left rest ht, hid⟩
  exact ((hrest.mem_handles id).mp hmem).1

theorem nodup_handles (h : Grows a b ts) (ht : t ∈ ts) : t.handles.Nodup := by
  obtain ⟨rest, hrest⟩ := h
  obtain ⟨us, hus⟩ := hrest.front (List.mem_append_left rest ht)
  exact hus.nodup_handles

theorem length_handles_le (h : Grows a b ts) (ht : t ∈ ts) : t.handles.length ≤ b.size := by
  obtain ⟨rest, hrest⟩ := h
  obtain ⟨us, hus⟩ := hrest.front (List.mem_append_left rest ht)
  exact hus.length_handles_le

end Grows

end ApiSyntax.Arena
