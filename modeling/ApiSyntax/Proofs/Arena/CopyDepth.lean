/-
  ApiSyntax/Proofs/Arena/CopyDepth.lean --- copying ends.

  Copying goes down the slots of an arena that it makes longer on the way.  A handle that the
  arena did not have at the start may by then name a copy, and the way down goes on there.  A
  way through old nodes meets each of them once if none of them is below itself; and a copy
  that is entered from an old slot was made before the copies that lie on the way to it.  So
  every way down is shorter than the bound that copying starts with.
-/
import ApiSyntax.Proofs.Arena.Replication

set_option autoImplicit false

namespace ApiSyntax.Arena

open Relation

variable {a b c d : Arena} {x y z f : NodeId} {k m : Nat} {n : Node}

/-! ## Ways down -/

/-- No way down from the handle meets more than `k` nodes. -/
def Shallow (a : Arena) : Nat → NodeId → Prop
  | 0, x => a.node? x = none
  | k + 1, x => ∀ y, a.Child x y → a.Shallow k y

/-- Nothing that can be reached from the handle is below itself. -/
def Loopless (a : Arena) (x : NodeId) : Prop :=
  ∀ y, ReflTransGen a.Child x y → ¬TransGen a.Child y y

theorem Child.found (h : a.Child x y) : x.index < a.size := by
  obtain ⟨n, hn, -⟩ := h
  exact lt_size_of_node? hn

theorem Child.mem_slots (h : a.Child x y) : y ∈ a.slots := by
  obtain ⟨n, hn, hy⟩ := h
  exact List.mem_flatMap.mpr ⟨n, Array.mem_toList_iff.mpr (Array.mem_of_getElem? hn), hy⟩

theorem child_iff_mem_slotsAt : a.Child x y ↔ y ∈ a.slotsAt x := by
  unfold Child slotsAt
  cases a.node? x <;> simp

theorem eq_of_reaches_foreign (hx : a.size ≤ x.index) (h : ReflTransGen a.Child x y) : y = x := by
  obtain rfl | ⟨z, hchild, -⟩ := ReflTransGen.cases_head h
  · rfl
  · exact absurd hchild.found (Nat.not_lt.mpr hx)

theorem reaches_found (hinside : ∀ c ∈ a.slots, c.index < a.size) (hx : x.index < a.size)
    (h : ReflTransGen a.Child x y) : y.index < a.size := by
  obtain rfl | ⟨z, -, hchild⟩ := ReflTransGen.cases_tail h
  · exact hx
  · exact hinside y hchild.mem_slots

namespace Shallow

theorem of_foreign (h : a.size ≤ x.index) (k : Nat) : a.Shallow k x := by
  cases k with
  | zero => exact node?_eq_none.mpr h
  | succ k => exact fun y hchild => absurd hchild.found (Nat.not_lt.mpr h)

theorem child (h : a.Shallow (k + 1) x) (hchild : a.Child x y) : a.Shallow k y := h y hchild

theorem mono (h : a.Shallow k x) (hle : k ≤ m) : a.Shallow m x := by
  induction k generalizing x m with
  | zero => exact of_foreign (node?_eq_none.mp h) m
  | succ k ih =>
    obtain ⟨m, rfl⟩ : ∃ i, m = i + 1 := ⟨m - 1, by omega⟩
    exact fun y hchild => ih (h.child hchild) (Nat.le_of_succ_le_succ hle)

/-- A copy is as deep as what was copied. -/
theorem copy (hcopy : a.Replicates b x y) (h : a.Shallow k x) : b.Shallow k y := by
  induction hcopy generalizing k with
  | node old new token untagged expr slots children ih =>
    cases k with
    | zero =>
      rw [Shallow, old] at h
      cases h
    | succ k =>
      rintro z ⟨m, hm, hz⟩
      rw [new] at hm
      cases hm
      obtain ⟨i, hi, rfl⟩ := List.mem_iff_getElem.mp hz
      have hi' := hi
      rw [slots] at hi'
      refine ih (_, _) (List.mem_iff_getElem.mpr ⟨i, ?_, List.getElem_zip⟩) ?_
      · rw [List.length_zip]
        exact Nat.lt_min.mpr ⟨hi', hi⟩
      · exact h.child ⟨_, old, List.getElem_mem hi'⟩

/-- What is behind the nodes of `a` stays as deep as it is. -/
theorem later (hb : Appends a b) (hbc : b.Precedes c) (hx : a.size ≤ x.index)
    (hx' : x.index < b.size) (h : b.Shallow k x) : c.Shallow k x := by
  induction k generalizing x with
  | zero =>
    obtain ⟨n, hn⟩ := exists_node hx'
    rw [Shallow, hn] at h
    cases h
  | succ k ih =>
    rintro y ⟨n, hn, hy⟩
    rw [hbc.kept x hx'] at hn
    have hbelow := hb.below x y hx ⟨n, hn, hy⟩
    exact ih hbelow.1 (Nat.lt_trans hbelow.2 hx') (h.child ⟨n, hn, hy⟩)

end Shallow

namespace Loopless

theorem of_foreign (h : a.size ≤ x.index) : a.Loopless x := by
  intro y hreach hloop
  obtain rfl := eq_of_reaches_foreign h hreach
  obtain ⟨z, hchild, -⟩ := TransGen.head'_iff.mp hloop
  exact Nat.not_lt.mpr h hchild.found

theorem child (h : a.Loopless x) (hchild : a.Child x y) : a.Loopless y :=
  fun z hreach => h z (.head hchild hreach)

/-- A handle is free of loops if up to it all slots hold earlier nodes or foreign handles. -/
theorem of_descending (h : ∀ i ≤ k, ∀ c ∈ a.slotsAt ⟨i⟩, c.index < i ∨ a.size ≤ c.index)
    (hx : x.index ≤ k) : a.Loopless x := by
  have hstep : ∀ {y z : NodeId}, y.index ≤ k → TransGen a.Child y z →
      z.index < y.index ∨ a.size ≤ z.index := by
    intro y z hy hbelow
    induction hbelow with
    | single hchild => exact h y.index hy _ (child_iff_mem_slotsAt.mp hchild)
    | tail _ hchild ih =>
      obtain hlt | hforeign := ih
      · have hnext := h _ (Nat.le_trans (Nat.le_of_lt hlt) hy) _ (child_iff_mem_slotsAt.mp hchild)
        exact hnext.imp_left fun hlt' => Nat.lt_trans hlt' hlt
      · exact absurd hchild.found (Nat.not_lt.mpr hforeign)
  intro y hreach hloop
  obtain ⟨z, hchild, -⟩ := TransGen.head'_iff.mp hloop
  have hy : y.index ≤ k := by
    obtain rfl | hbelow := reflTransGen_iff_eq_or_transGen.mp hreach
    · exact hx
    · obtain hlt | hforeign := hstep hx hbelow
      · exact Nat.le_trans (Nat.le_of_lt hlt) hx
      · exact absurd hchild.found (Nat.not_lt.mpr hforeign)
  obtain hlt | hforeign := hstep hy hloop
  · exact Nat.lt_irrefl _ hlt
  · exact Nat.not_lt.mpr hforeign hchild.found

/-- A way down that went through the nodes `seen` has only the other nodes before it. -/
theorem shallow_behind {seen : List NodeId} (h : a.Loopless x) (hnodup : seen.Nodup)
    (hseen : ∀ s ∈ seen, s.index < a.size ∧ TransGen a.Child s x)
    (hsize : a.size ≤ seen.length + k) : a.Shallow k x := by
  have hfresh : x ∉ seen := fun hmem => h x .refl (hseen x hmem).2
  induction k generalizing x seen with
  | zero =>
    refine node?_eq_none.mpr (Nat.not_lt.mp fun hx => ?_)
    have hall : ∀ s ∈ x :: seen, s.index < a.size :=
      List.forall_mem_cons.mpr ⟨hx, fun s hs => (hseen s hs).1⟩
    have hle := length_le_size (List.nodup_cons.mpr ⟨hfresh, hnodup⟩) hall
    rw [List.length_cons] at hle
    omega
  | succ k ih =>
    intro y hchild
    have hpath : ∀ s ∈ x :: seen, s.index < a.size ∧ TransGen a.Child s y :=
      List.forall_mem_cons.mpr ⟨⟨hchild.found, .single hchild⟩,
        fun s hs => ⟨(hseen s hs).1, (hseen s hs).2.tail hchild⟩⟩
    refine ih (h.child hchild) (List.nodup_cons.mpr ⟨hfresh, hnodup⟩) hpath ?_ ?_
    · rw [List.length_cons]
      omega
    · exact fun hmem => h.child hchild y .refl (hpath y hmem).2

theorem shallow (h : a.Loopless x) : a.Shallow a.size x :=
  h.shallow_behind List.nodup_nil (fun _ hs => absurd hs List.not_mem_nil) (Nat.le_add_left _ _)

end Loopless

/-! ## How deep copies are -/

/-- How many slots name a node behind those of the arena, with an index below `i`. -/
def straysBelow (a : Arena) (i : Nat) : Nat :=
  a.slots.countP fun f => decide (a.size ≤ f.index ∧ f.index < i)

/-- How deep a copy with the index `i` may be: before each slot that leads to an earlier copy the way
goes through old nodes. -/
def copyBound (a : Arena) (i : Nat) : Nat := a.size * (a.straysBelow i + 1)

theorem straysBelow_mono {i j : Nat} (h : i ≤ j) : a.straysBelow i ≤ a.straysBelow j := by
  refine List.countP_mono_left fun f _ hf => ?_
  simp only [decide_eq_true_eq] at hf ⊢
  omega

theorem straysBelow_lt {i : Nat} (hf : f ∈ a.slots) (hsize : a.size ≤ f.index) (hi : f.index < i) :
    a.straysBelow f.index < a.straysBelow i := by
  obtain ⟨l, r, hsplit⟩ := List.append_of_mem hf
  have hpart : ∀ s : List NodeId,
      s.countP (fun g => decide (a.size ≤ g.index ∧ g.index < f.index)) ≤
        s.countP fun g => decide (a.size ≤ g.index ∧ g.index < i) := by
    refine fun s => List.countP_mono_left fun g _ hg => ?_
    simp only [decide_eq_true_eq] at hg ⊢
    omega
  have hl := hpart l
  have hr := hpart r
  simp only [straysBelow, hsplit, List.countP_append, List.countP_cons, Nat.lt_irrefl, and_false,
    decide_false, hsize, hi, and_self, decide_true, if_true]
  simp only [Bool.false_eq_true, if_false]
  omega

theorem copyBound_mono {i j : Nat} (h : i ≤ j) : a.copyBound i ≤ a.copyBound j :=
  Nat.mul_le_mul_left _ (Nat.succ_le_succ (straysBelow_mono h))

/-- No slot names a copy of the greatest depth that is possible. -/
theorem copyBound_stray_le {i : Nat} (hf : f ∈ a.slots) (hsize : a.size ≤ f.index)
    (hi : f.index < i) : a.copyBound f.index ≤ a.size * a.straysBelow i :=
  Nat.mul_le_mul_left _ (straysBelow_lt hf hsize hi)

theorem slotCount_eq (a : Arena) : a.slotCount = a.slots.length := by
  have hfrom : ∀ (l : List Node) (k : Nat),
      l.foldl (fun n node => n + node.expr.children.length) k =
        k + (l.flatMap fun n => n.expr.children).length := by
    intro l
    induction l with
    | nil => exact fun _ => rfl
    | cons n l ih =>
      intro k
      rw [List.foldl_cons, ih, List.flatMap_cons, List.length_append, Nat.add_assoc]
  rw [slotCount, ← Array.foldl_toList, hfrom, Nat.zero_add, slots]

/-- How deep anything is that copying may meet. -/
def depthBound (a : Arena) : Nat := a.size * (a.slots.length + 1)

theorem depthBound_lt_copyDepth (a : Arena) : a.depthBound < a.copyDepth := by
  rw [depthBound, copyDepth, slotCount_eq]
  calc a.size * (a.slots.length + 1) ≤ (a.size + 1) * (a.slots.length + 1) :=
        Nat.mul_le_mul_right _ (Nat.le_succ _)
    _ < (a.size + 1) * (a.slots.length + 2) := Nat.mul_lt_mul_of_pos_left (by omega) (by omega)

/-! ## Arenas with copies -/

/-- Behind the nodes of `a` are copies, each no deeper than its index allows. -/
structure WithCopies (a c : Arena) : Prop extends Appends a c where
  bounded : ∀ z, a.size ≤ z.index → c.Shallow (a.copyBound z.index) z

namespace WithCopies

theorem refl (a : Arena) : WithCopies a a where
  toAppends := .refl a
  bounded _ hz := .of_foreign hz _

/-- A way down goes through old nodes, and then possibly on from a handle that they did not have. -/
theorem shallow_of (h : WithCopies a c) (hx : a.Shallow k x)
    (hstray : ∀ f, f = x ∨ f ∈ a.slots → a.size ≤ f.index → c.Shallow m f) :
    c.Shallow (k + m) x := by
  by_cases hold : x.index < a.size
  · induction k generalizing x with
    | zero => exact absurd (node?_eq_none.mp hx) (Nat.not_le.mpr hold)
    | succ k ih =>
      rw [Nat.succ_add]
      rintro y ⟨n, hn, hy⟩
      have hchild : a.Child x y := ⟨n, (h.kept x hold) ▸ hn, hy⟩
      have hmem : y ∈ a.slots := hchild.mem_slots
      by_cases hy' : y.index < a.size
      · refine ih (hx.child hchild) (fun f hf hsize => hstray f ?_ hsize) hy'
        exact .inr (hf.elim (fun e => e ▸ hmem) id)
      · exact (hstray y (.inr hmem) (Nat.not_lt.mp hy')).mono (Nat.le_add_left _ _)
  · exact (hstray x (.inl rfl) (Nat.not_lt.mp hold)).mono (Nat.le_add_left _ _)

/-- A node is as deep as a copy of it may be. -/
theorem shallow (h : WithCopies a c) (hx : a.Loopless x) (hfound : x.index < c.size) :
    c.Shallow (a.copyBound c.size) x := by
  by_cases hold : x.index < a.size
  · have hdeep : c.Shallow (a.size + a.size * a.straysBelow c.size) x := by
      refine h.shallow_of hx.shallow fun f hf hsize => ?_
      by_cases hf' : f.index < c.size
      · have hmem : f ∈ a.slots := hf.resolve_left fun e => absurd (e ▸ hold) (Nat.not_lt.mpr hsize)
        exact (h.bounded f hsize).mono (copyBound_stray_le hmem hsize hf')
      · exact .of_foreign (Nat.not_lt.mp hf') _
    rwa [Nat.add_comm, ← Nat.mul_succ] at hdeep
  · exact (h.bounded x (Nat.not_lt.mp hold)).mono (copyBound_mono (Nat.le_of_lt hfound))

theorem shallow_depthBound (h : WithCopies a c) (hx : a.Loopless x) :
    c.Shallow a.depthBound x := by
  by_cases hfound : x.index < c.size
  · refine (h.shallow hx hfound).mono (Nat.mul_le_mul_left _ ?_)
    exact Nat.succ_le_succ List.countP_le_length
  · exact .of_foreign (Nat.not_lt.mp hfound) _

theorem loopless_child (h : WithCopies a c) (hx : a.Loopless x) (hchild : c.Child x y) :
    a.Loopless y := by
  by_cases hold : x.index < a.size
  · obtain ⟨n, hn, hy⟩ := hchild
    exact hx.child ⟨n, (h.kept x hold) ▸ hn, hy⟩
  · exact .of_foreign (h.below x y (Nat.not_lt.mp hold) hchild).1

/-- A copy of a node is put behind the copies of its children. -/
theorem push {ys : List NodeId} (h : WithCopies a c) (hx : a.Loopless x) (hn : b.node? x = some n)
    (hab : a.size ≤ b.size) (hcopied : Copied b c n.expr.children ys) :
    WithCopies a (c.push n.token (n.expr.withChildren ys)) := by
  have hslots : (n.expr.withChildren ys).children = ys :=
    Expr.children_withChildren _ ys hcopied.copies.length_eq.symm
  refine ⟨h.toAppends.push n.token ?_, fun z hz => ?_⟩
  · rw [hslots]
    intro y hy
    have hmem := hcopied.mem_newHandles hy
    exact ⟨Nat.le_trans hab hmem.1, hmem.2⟩
  · rcases Nat.lt_trichotomy z.index c.size with hlt | heq | hgt
    · exact .later h.toAppends (.push ..) hz hlt (h.bounded z hz)
    · obtain rfl : z = c.next := congrArg NodeId.mk heq
      exact .copy (hcopied.copy hn) (h.shallow hx (lt_size_of_node? (hcopied.node? hn)))
    · refine .of_foreign ?_ _
      rw [size_push]
      exact hgt

/-- Copying what is free of loops keeps copies as deep as they may be, however the run ends. -/
theorem copyN {fuel : Nat} (h : WithCopies a c) (hx : a.Loopless x) :
    WithCopies a (copyN fuel x c).2 := by
  induction fuel generalizing x c with
  | zero => exact h
  | succ fuel ih =>
    cases hnode : c.node? x with
    | none =>
      rw [copyN_none hnode]
      exact h
    | some n =>
      have hloopless : ∀ y ∈ n.expr.children, a.Loopless y := fun y hy =>
        h.loopless_child hx ⟨n, hnode, hy⟩
      have hchildren : WithCopies a (n.expr.children.mapM (Arena.copyN fuel) c).2 :=
        Action.mapM_rel (R := fun c d => WithCopies a c → WithCopies a d) (fun _ => id)
          (fun hab hbc h => hbc (hab h)) (fun y hy _ h => ih h (hloopless y hy)) c h
      rw [copyN_some hnode]
      cases hruns : n.expr.children.mapM (Arena.copyN fuel) c with
      | mk results d =>
        rw [hruns] at hchildren
        cases results with
        | error e => exact hchildren
        | ok ys => exact hchildren.push hx hnode h.le (mapM_copied copyN_copied hruns)

end WithCopies

/-! ## How copying ends -/

/-- The bound is used up only by a way down that is as long as it. -/
theorem not_shallow_of_exhausted {fuel : Nat} (h : copyN fuel x a = (.error .exhausted, b))
    (hk : k < fuel) : ¬b.Shallow k x := by
  induction fuel generalizing x a k with
  | zero => exact absurd hk (Nat.not_lt_zero k)
  | succ fuel ih =>
    obtain ⟨-, he, -⟩ | ⟨n, hn, hruns⟩ := copyN_error h
    · cases he
    · have hkept : a.Precedes b := by
        have hall := copyN_precedes (fuel + 1) x a
        rwa [h] at hall
      cases k with
      | zero =>
        rw [Shallow, hkept.node? hn]
        nofun
      | succ k =>
        obtain ⟨y, hy, c, hrun⟩ := Action.exists_of_mapM_error hruns
        intro hshallow
        exact ih hrun (Nat.lt_of_succ_lt_succ hk) (hshallow.child ⟨n, hkept.node? hn, hy⟩)

/-- Copying fails at a handle below the one it was given that is still foreign. -/
theorem copyN_failed {fuel : Nat} {e : Diagnostic} (h : copyN fuel x a = (.error (.failed e), b)) :
    ∃ f, e = .of (.unknownNode f) ∧ b.size ≤ f.index ∧ ReflTransGen b.Child x f := by
  induction fuel generalizing x a with
  | zero => cases h
  | succ fuel ih =>
    have hkept : a.Precedes b := by
      have hall := copyN_precedes (fuel + 1) x a
      rwa [h] at hall
    obtain ⟨hnone, he, rfl⟩ | ⟨n, hn, hruns⟩ := copyN_error h
    · cases he
      exact ⟨x, rfl, node?_eq_none.mp hnone, .refl⟩
    · obtain ⟨y, hy, c, hrun⟩ := Action.exists_of_mapM_error hruns
      obtain ⟨f, he, hf, hreach⟩ := ih hrun
      exact ⟨f, he, hf, .head ⟨n, hkept.node? hn, hy⟩ hreach⟩

/-- A foreign handle is not below a copy, so it is reached through old nodes. -/
theorem Appends.reaches_back (h : Appends a b) (hf : b.size ≤ f.index)
    (hreach : ReflTransGen b.Child x f) : ReflTransGen a.Child x f := by
  induction hreach using ReflTransGen.head_induction_on with
  | refl => exact .refl
  | @head x y hchild hrest ih =>
    by_cases hx : x.index < a.size
    · obtain ⟨n, hn, hy⟩ := hchild
      exact .head ⟨n, (h.kept x hx) ▸ hn, hy⟩ ih
    · have hle := (h.between_of_reaches (Nat.not_lt.mp hx) (.head hchild hrest)).2
      exact absurd (Nat.lt_of_le_of_lt hle hchild.found) (Nat.not_lt.mpr hf)

/-- A handle that is free of loops is copied, or one below it is reported that is foreign, before
the run as well as after it. -/
theorem duplicate_ends (h : a.Loopless x) :
    ∃ b, WithCopies a b ∧
      ((∃ y, duplicate x a = (.ok y, b) ∧ Copied a b [x] [y]) ∨
        ∃ f, duplicate x a = (.error (.failed (.of (.unknownNode f))), b) ∧
          ReflTransGen a.Child x f ∧ b.size ≤ f.index) := by
  have hcopies : WithCopies a (duplicate x a).2 := (WithCopies.refl a).copyN h
  cases hrun : duplicate x a with
  | mk result b =>
    rw [hrun] at hcopies
    refine ⟨b, hcopies, ?_⟩
    cases result with
    | ok y => exact .inl ⟨y, rfl, copyN_copied hrun⟩
    | error e =>
      right
      cases e with
      | exhausted =>
        exact absurd (hcopies.shallow_depthBound h)
          (not_shallow_of_exhausted hrun (depthBound_lt_copyDepth a))
      | failed d =>
        obtain ⟨f, rfl, hf, hreach⟩ := copyN_failed hrun
        exact ⟨f, rfl, hcopies.reaches_back hf hreach, hf⟩

end ApiSyntax.Arena
