/-
  ApiSyntax/Proofs/Arena/Replication.lean --- what a run of copying leaves behind.

  Copying adds nodes at the end of an arena and touches no other one.  Nothing is asked
  here of the arena that the copying starts from: nodes may be shared, lie in circles, or
  list handles that the arena does not have.  Each new node carries its handle, its slots
  hold new nodes that were made before it, and no other slot holds them.
-/
import ApiSyntax.Proofs.Arena.Ancestry
import ApiSyntax.Proofs.Arena.Follows

set_option autoImplicit false

namespace ApiSyntax.Arena

variable {a a' b b' c : Arena} {x y z : NodeId} {n : Node}

theorem node?_eq_none : a.node? x = none ↔ a.size ≤ x.index := Array.getElem?_eq_none_iff

theorem exists_node (h : x.index < a.size) : ∃ n, a.node? x = some n :=
  ⟨a.nodes[x.index], Array.getElem?_eq_getElem h⟩

/-! ## Arenas that become longer -/

/-- All nodes of the first arena are in the second one, as they were. -/
structure Precedes (a b : Arena) : Prop where
  le : a.size ≤ b.size
  kept : ∀ id, id.index < a.size → b.node? id = a.node? id

namespace Precedes

theorem refl (a : Arena) : a.Precedes a := ⟨Nat.le_refl _, fun _ _ => rfl⟩

theorem trans (h : a.Precedes b) (h' : b.Precedes c) : a.Precedes c where
  le := Nat.le_trans h.le h'.le
  kept id hid := (h'.kept id (Nat.lt_of_lt_of_le hid h.le)).trans (h.kept id hid)

theorem push (a : Arena) (token : Token) (e : Expr) : a.Precedes (a.push token e) where
  le := by simp
  kept _ hid := node?_push_of_lt hid

theorem node? (h : a.Precedes b) (hn : a.node? x = some n) : b.node? x = some n :=
  (h.kept x (lt_size_of_node? hn)).trans hn

theorem child (h : a.Precedes b) (hchild : a.Child x y) : b.Child x y := by
  obtain ⟨n, hn, hy⟩ := hchild
  exact ⟨n, h.node? hn, hy⟩

theorem slotsAt (h : a.Precedes b) (hx : x.index < a.size) : b.slotsAt x = a.slotsAt x := by
  rw [Arena.slotsAt, Arena.slotsAt, h.kept x hx]

end Precedes

/-- Whatever copying comes to, it only adds nodes. -/
theorem copyN_precedes (fuel : Nat) (x : NodeId) (a : Arena) :
    a.Precedes (copyN fuel x a).2 := by
  induction fuel generalizing x a with
  | zero => exact .refl a
  | succ fuel ih =>
    cases hnode : a.node? x with
    | none =>
      rw [copyN_none hnode]
      exact .refl a
    | some n =>
      have hchildren := Action.mapM_rel .refl .trans (fun x (_ : x ∈ n.expr.children) => ih x) a
      rw [copyN_some hnode]
      cases hruns : n.expr.children.mapM (copyN fuel) a with
      | mk results b =>
        rw [hruns] at hchildren
        cases results with
        | error d => exact hchildren
        | ok copies => exact hchildren.trans (.push b n.token _)

/-! ## The new nodes -/

/-- The handles that the second arena has and the first one does not have. -/
def newHandles (a b : Arena) : List NodeId :=
  (List.range' a.size (b.size - a.size)).map NodeId.mk

theorem mem_newHandles : x ∈ newHandles a b ↔ a.size ≤ x.index ∧ x.index < b.size := by
  cases x
  simp only [newHandles, List.mem_map, NodeId.mk.injEq, exists_eq_right, List.mem_range'_1]
  omega

theorem nodup_newHandles (a b : Arena) : (newHandles a b).Nodup :=
  List.Nodup.map (fun _ _ hij => NodeId.mk.inj hij) List.nodup_range'

@[simp] theorem newHandles_self (a : Arena) : newHandles a a = [] := by
  simp [newHandles]

theorem newHandles_append (hab : a.size ≤ b.size) (hbc : b.size ≤ c.size) :
    newHandles a b ++ newHandles b c = newHandles a c := by
  have hrange : List.range' a.size (b.size - a.size) ++ List.range' b.size (c.size - b.size) =
      List.range' a.size (c.size - a.size) := by
    have hsize : c.size - a.size = (b.size - a.size) + (c.size - b.size) := by omega
    rw [hsize, ← List.range'_append_1, Nat.add_sub_of_le hab]
  rw [newHandles, newHandles, newHandles, ← List.map_append, hrange]

theorem newHandles_push (h : a.size ≤ b.size) (token : Token) (e : Expr) :
    newHandles a (b.push token e) = newHandles a b ++ [b.next] := by
  rw [← newHandles_append h (Precedes.push b token e).le]
  simp [newHandles, next]

/-- The slots are those that were there and those of the new nodes. -/
theorem Precedes.slots_eq (h : a.Precedes b) :
    b.slots = a.slots ++ (newHandles a b).flatMap b.slotsAt := by
  have hold : ((List.range a.size).map NodeId.mk).flatMap b.slotsAt = a.slots := by
    rw [Arena.slots_eq a]
    refine List.flatMap_congr fun x hx => h.slotsAt ?_
    obtain ⟨i, hi, rfl⟩ := List.mem_map.mp hx
    exact List.mem_range.mp hi
  have hsplit : (List.range b.size).map NodeId.mk =
      (List.range a.size).map NodeId.mk ++ newHandles a b := by
    have hsize : b.size = a.size + (b.size - a.size) := by have := h.le; omega
    rw [newHandles, ← List.map_append, List.range_eq_range', List.range_eq_range', hsize,
      Nat.add_sub_cancel_left, ← List.range'_append_1, Nat.zero_add]
  rw [Arena.slots_eq b, hsplit, List.flatMap_append, hold]

/-- Behind the nodes of `a` are nodes that carry their handles; in their slots are such nodes
too, each made before the node that lists it. -/
structure Appends (a b : Arena) : Prop extends Precedes a b where
  ids : ∀ z n, a.size ≤ z.index → b.node? z = some n → n.id = z
  below : ∀ z y, a.size ≤ z.index → b.Child z y → a.size ≤ y.index ∧ y.index < z.index

namespace Appends

theorem refl (a : Arena) : Appends a a where
  toPrecedes := .refl a
  ids _ _ hz hn := absurd (lt_size_of_node? hn) (Nat.not_lt.mpr hz)
  below _ _ hz hchild := by
    obtain ⟨n, hn, -⟩ := hchild
    exact absurd (lt_size_of_node? hn) (Nat.not_lt.mpr hz)

theorem trans (h : Appends a b) (h' : Appends b c) : Appends a c where
  toPrecedes := h.toPrecedes.trans h'.toPrecedes
  ids z n hz hn := by
    by_cases hb : z.index < b.size
    · exact h.ids z n hz ((h'.kept z hb) ▸ hn)
    · exact h'.ids z n (Nat.not_lt.mp hb) hn
  below z y hz hchild := by
    by_cases hb : z.index < b.size
    · obtain ⟨n, hn, hy⟩ := hchild
      exact h.below z y hz ⟨n, (h'.kept z hb) ▸ hn, hy⟩
    · have hle := h.le
      have hbelow := h'.below z y (Nat.not_lt.mp hb) hchild
      exact ⟨Nat.le_trans hle hbelow.1, hbelow.2⟩

theorem push (h : Appends a b) (token : Token) {e : Expr}
    (hnew : ∀ y ∈ e.children, a.size ≤ y.index ∧ y.index < b.size) :
    Appends a (b.push token e) := by
  have hcases : ∀ z m, (b.push token e).node? z = some m →
      z.index < b.size ∧ b.node? z = some m ∨ z = b.next ∧ m = ⟨b.next, token, [], e⟩ := by
    intro z m hm
    by_cases hz : z.index < b.size
    · rw [node?_push_of_lt hz] at hm
      exact .inl ⟨hz, hm⟩
    · have hlt := lt_size_of_node? hm
      rw [size_push] at hlt
      have hnext : z = b.next := by
        cases z
        simp only [next, NodeId.mk.injEq] at hz hlt ⊢
        omega
      subst hnext
      rw [node?_push_next] at hm
      cases hm
      exact .inr ⟨rfl, rfl⟩
  refine ⟨h.toPrecedes.trans (.push b token e), fun z m hz hm => ?_, fun z y hz hchild => ?_⟩
  · obtain ⟨-, hm⟩ | ⟨rfl, rfl⟩ := hcases z m hm
    · exact h.ids z m hz hm
    · rfl
  · obtain ⟨m, hm, hy⟩ := hchild
    obtain ⟨-, hm⟩ | ⟨rfl, rfl⟩ := hcases z m hm
    · exact h.below z y hz ⟨m, hm, hy⟩
    · exact hnew y hy

/-- What is below a new node is new, and was made before it. -/
theorem between_of_reaches (h : Appends a b) (hz : a.size ≤ z.index)
    (hreach : Relation.ReflTransGen b.Child z y) : a.size ≤ y.index ∧ y.index ≤ z.index := by
  induction hreach with
  | refl => exact ⟨hz, Nat.le_refl _⟩
  | tail _ hchild ih =>
    have hbelow := h.below _ _ ih.1 hchild
    exact ⟨hbelow.1, Nat.le_trans (Nat.le_of_lt hbelow.2) ih.2⟩

end Appends

/-! ## Copies -/

/-- Below `y` in the second arena stands what stands below `x` in the first one: at every place
the same token and the same contents, but for the handles in the slots, and no tags. -/
inductive Replicates (a b : Arena) : NodeId → NodeId → Prop
  | node {x y : NodeId} {n m : Node} (old : a.node? x = some n) (new : b.node? y = some m)
      (token : m.token = n.token) (untagged : m.tags = [])
      (expr : m.expr = n.expr.withChildren m.expr.children)
      (slots : m.expr.children.length = n.expr.children.length)
      (children : ∀ p ∈ n.expr.children.zip m.expr.children, Replicates a b p.1 p.2) :
      Replicates a b x y

namespace Replicates

theorem later (h : a.Replicates b x y) (ha : a.Precedes a') (hb : b.Precedes b') :
    a'.Replicates b' x y := by
  induction h with
  | node old new token untagged expr slots children ih =>
    exact .node (ha.node? old) (hb.node? new) token untagged expr slots ih

/-- A place below what is copied is in the arena. -/
theorem found (h : a.Replicates b x y) (hreach : Relation.ReflTransGen a.Child x z) :
    z.index < a.size := by
  induction h with
  | node old new token untagged expr slots children ih =>
    obtain rfl | ⟨w, ⟨n, hn, hw⟩, hreach⟩ := Relation.ReflTransGen.cases_head hreach
    · exact lt_size_of_node? old
    · rw [old] at hn
      cases hn
      obtain ⟨i, hi, rfl⟩ := List.mem_iff_getElem.mp hw
      exact ih _ (List.mem_iff_getElem.mpr ⟨i, by simpa [slots] using hi, List.getElem_zip⟩) hreach

/-- What was copied stood in the earlier arena already, if nothing below it was missing there. -/
theorem restrict (h : b.Replicates c x y) (hab : a.Precedes b)
    (hfound : ∀ z, Relation.ReflTransGen a.Child x z → z.index < a.size) : a.Replicates c x y := by
  induction h with
  | @node x y n m old new token untagged expr slots children ih =>
    have hx : a.node? x = some n := by
      rw [← hab.kept x (hfound x .refl)]
      exact old
    refine .node hx new token untagged expr slots fun p hp => ih p hp fun z hz => hfound z ?_
    exact .head ⟨n, hx, (List.of_mem_zip hp).1⟩ hz

end Replicates

/-- The nodes behind those of `a` are what comes of copying `xs`: the copies are `ys`, and a new
node is either one of these or in a slot of a new node, and that once. -/
structure Copied (a b : Arena) (xs ys : List NodeId) : Prop extends Appends a b where
  copies : List.Forall₂ (b.Replicates b) xs ys
  placed : (newHandles a b).Perm (ys ++ (newHandles a b).flatMap b.slotsAt)

namespace Copied

variable {xs xs' ys ys' : List NodeId}

theorem nil (a : Arena) : Copied a a [] [] where
  toAppends := .refl a
  copies := .nil
  placed := by simp

theorem append (h : Copied a b xs ys) (h' : Copied b c xs' ys') :
    Copied a c (xs ++ xs') (ys ++ ys') where
  toAppends := h.toAppends.trans h'.toAppends
  copies := List.rel_append (h.copies.imp fun _ _ hcopy => hcopy.later h'.toPrecedes h'.toPrecedes)
    h'.copies
  placed := by
    have hfirst : (newHandles a b).flatMap c.slotsAt = (newHandles a b).flatMap b.slotsAt :=
      List.flatMap_congr fun x hx => h'.slotsAt (mem_newHandles.mp hx).2
    rw [← newHandles_append h.le h'.le, List.flatMap_append, hfirst, List.append_assoc]
    refine (h.placed.append h'.placed).trans ?_
    rw [List.append_assoc]
    exact .append_left _ (List.perm_append_comm_assoc ..)

theorem mem_newHandles (h : Copied a b xs ys) (hy : y ∈ ys) :
    a.size ≤ y.index ∧ y.index < b.size :=
  Arena.mem_newHandles.mp (h.placed.mem_iff.mpr (List.mem_append_left _ hy))

/-- A node over the copies of the children of a node is a copy of the node. -/
theorem copy (h : Copied a b n.expr.children ys) (hn : a.node? x = some n) :
    b.Replicates (b.push n.token (n.expr.withChildren ys)) x b.next := by
  have hlength : ys.length = n.expr.children.length := h.copies.length_eq.symm
  have hslots : (n.expr.withChildren ys).children = ys := Expr.children_withChildren _ ys hlength
  refine .node (h.node? hn) (node?_push_next ..) rfl rfl ?_ ?_ ?_
  · exact congrArg n.expr.withChildren hslots.symm
  · exact (congrArg List.length hslots).trans hlength
  · intro p hp
    simp only [hslots] at hp
    exact ((List.forall₂_iff_zip.mp h.copies).2 hp).later (.refl b) (.push ..)

/-- The copy of a node is made behind the copies of its children. -/
theorem push (h : Copied a b n.expr.children ys) (hn : a.node? x = some n) :
    Copied a (b.push n.token (n.expr.withChildren ys)) [x] [b.next] := by
  have hslots : (n.expr.withChildren ys).children = ys :=
    Expr.children_withChildren _ ys h.copies.length_eq.symm
  have hlater : b.Precedes (b.push n.token (n.expr.withChildren ys)) := .push ..
  refine ⟨h.toAppends.push n.token ?_, .cons ((h.copy hn).later hlater (.refl _)) .nil, ?_⟩
  · rw [hslots]
    exact fun y hy => h.mem_newHandles hy
  · have hnext : (b.push n.token (n.expr.withChildren ys)).slotsAt b.next = ys := by
      rw [slotsAt, node?_push_next]
      exact hslots
    have hold : (newHandles a b).flatMap (b.push n.token (n.expr.withChildren ys)).slotsAt =
        (newHandles a b).flatMap b.slotsAt :=
      List.flatMap_congr fun z hz => hlater.slotsAt (Arena.mem_newHandles.mp hz).2
    rw [newHandles_push h.le, List.flatMap_append, hold, List.flatMap_singleton, hnext]
    refine List.perm_append_comm.trans (.append_left _ ?_)
    exact h.placed.trans List.perm_append_comm

/-- Each new node is in one slot, but for the copy itself. -/
theorem count_slots (h : Copied a b [x] [y]) (hinside : ∀ c ∈ a.slots, c.index < a.size)
    (hz : a.size ≤ z.index) (hz' : z.index < b.size) (hne : z ≠ y) : b.slots.count z = 1 := by
  have hold : a.slots.count z = 0 := by
    refine List.count_eq_zero_of_not_mem fun hmem => ?_
    exact Nat.not_lt.mpr hz (hinside z hmem)
  have hone : (newHandles a b).count z = 1 :=
    List.count_eq_one_of_mem (nodup_newHandles a b) (Arena.mem_newHandles.mpr ⟨hz, hz'⟩)
  have hself : [y].count z = 0 := by
    refine List.count_eq_zero_of_not_mem fun hmem => hne ?_
    exact List.mem_singleton.mp hmem
  have hall := h.placed.count_eq z
  rw [List.count_append, hone, hself] at hall
  rw [h.slots_eq, List.count_append, hold]
  omega

end Copied

/-! ## The runs -/

/-- A copy is the node made last, behind the copies of the children. -/
theorem copyN_ok {fuel : Nat} (h : copyN (fuel + 1) x a = (.ok y, b)) :
    ∃ n copies c, a.node? x = some n ∧ n.expr.children.mapM (copyN fuel) a = (.ok copies, c) ∧
      y = c.next ∧ b = c.push n.token (n.expr.withChildren copies) := by
  cases hnode : a.node? x with
  | none =>
    rw [copyN_none hnode] at h
    cases h
  | some n =>
    rw [copyN_some hnode] at h
    cases hruns : n.expr.children.mapM (copyN fuel) a with
    | mk results c =>
      rw [hruns] at h
      cases results with
      | error d => cases h
      | ok copies =>
        cases h
        exact ⟨n, copies, c, rfl, hruns, rfl, rfl⟩

/-- Copying fails at a foreign handle, or in the children. -/
theorem copyN_error {fuel : Nat} {e : Stop} (h : copyN (fuel + 1) x a = (.error e, b)) :
    (a.node? x = none ∧ e = .failed (.of (.unknownNode x)) ∧ b = a) ∨
      ∃ n, a.node? x = some n ∧ n.expr.children.mapM (copyN fuel) a = (.error e, b) := by
  cases hnode : a.node? x with
  | none =>
    rw [copyN_none hnode] at h
    cases h
    exact .inl ⟨rfl, rfl, rfl⟩
  | some n =>
    rw [copyN_some hnode] at h
    cases hruns : n.expr.children.mapM (copyN fuel) a with
    | mk results c =>
      rw [hruns] at h
      cases results with
      | ok copies => cases h
      | error d =>
        cases h
        exact .inr ⟨n, rfl, hruns⟩

theorem mapM_copied {f : NodeId → Action Arena Stop NodeId}
    (hf : ∀ {x y : NodeId} {a b : Arena}, f x a = (.ok y, b) → Copied a b [x] [y])
    {xs ys : List NodeId} (h : xs.mapM f a = (.ok ys, b)) : Copied a b xs ys := by
  induction xs generalizing a ys with
  | nil =>
    cases h
    exact .nil _
  | cons x xs ih =>
    obtain ⟨e, -, he⟩ | ⟨y, c, rest, hrun, hruns, he⟩ := Action.mapM_cons_cases h
    · cases he
    · cases rest with
      | error e => cases he
      | ok ys =>
        cases he
        exact (hf hrun).append (ih hruns)

/-- A run of copying that ends with a handle has made a copy. -/
theorem copyN_copied {fuel : Nat} (h : copyN fuel x a = (.ok y, b)) : Copied a b [x] [y] := by
  induction fuel generalizing x y a b with
  | zero => cases h
  | succ fuel ih =>
    obtain ⟨n, copies, c, hn, hruns, rfl, rfl⟩ := copyN_ok h
    exact (mapM_copied ih hruns).push hn

end ApiSyntax.Arena
