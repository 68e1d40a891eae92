/-
  ApiSyntax/Proofs/Arena/Rewiring.lean --- one child slot is pointed elsewhere.

  Pointing a slot of `parent` elsewhere is the only change of the arena, and a refused change
  is none.  In an arena in which no node has two parents or is below itself, the slot may be
  given to any node without a parent that does not have `parent` below it; nodes still have
  one parent at most then, and no node is below itself.
-/
import ApiSyntax.Proofs.Arena.CopyDepth
import ApiSyntax.Workspace

set_option autoImplicit false

namespace ApiSyntax

open Relation

/-- The one slot that holds `target` is pointed at `replacement`. -/
theorem Expr.redirect_eq {e : Expr} {target replacement : NodeId} {before after : List NodeId}
    (hsplit : e.children = before ++ target :: after) (hbefore : target ∉ before)
    (hafter : target ∉ after) :
    e.redirect target replacement = e.withChildren (before ++ replacement :: after) := by
  have hkeep : ∀ cs : List NodeId, target ∉ cs →
      cs.map (fun c => if c = target then replacement else c) = cs := by
    intro cs hcs
    refine (List.map_congr_left fun c hc => if_neg ?_).trans (List.map_id' cs)
    rintro rfl
    exact hcs hc
  rw [redirect, hsplit, List.map_append, List.map_cons, hkeep before hbefore, hkeep after hafter,
    if_pos rfl]

namespace Arena

variable {a b : Arena} {parent target replacement x y : NodeId}

/-! ## What is changed -/

/-- In `b` the only slot of `parent` that held `target` holds `replacement`, and nothing else is
different from `a`. -/
structure Rewired (a b : Arena) (parent target replacement : NodeId) : Prop where
  size : b.size = a.size
  others : ∀ x, x ≠ parent → b.node? x = a.node? x
  slot : ∃ n before after e, a.node? parent = some n ∧ n.expr.children = before ++ target :: after ∧
    target ∉ before ++ after ∧ b.node? parent = some { n with expr := e } ∧
    e.children = before ++ replacement :: after ∧ e.withChildren n.expr.children = n.expr

theorem node_eq_ok {n : Node} : a.node x = .ok n ↔ a.node? x = some n := by
  unfold node
  cases a.node? x with
  | none => exact ⟨nofun, nofun⟩
  | some m => simp

/-- The change is refused unless the three nodes are there and the parent lists the target once. -/
theorem replaceChild_eq_ok : a.replaceChild parent target replacement = .ok b ↔
    (∃ n, a.node? replacement = some n) ∧ (∃ n, a.node? target = some n) ∧
      ∃ n, a.node? parent = some n ∧ n.expr.children.count target = 1 ∧
        b = a.setExpr parent (n.expr.redirect target replacement) := by
  simp only [← node_eq_ok, replaceChild]
  cases a.node replacement with
  | error d => exact ⟨nofun, fun h => nomatch h.1.choose_spec⟩
  | ok r =>
    cases a.node target with
    | error d => exact ⟨nofun, fun h => nomatch h.2.1.choose_spec⟩
    | ok t =>
      cases a.node parent with
      | error d => exact ⟨nofun, fun h => nomatch h.2.2.choose_spec.1⟩
      | ok n =>
        simp only [bind, Except.bind, Except.ok.injEq, exists_eq', true_and, exists_eq_left']
        split
        case isTrue hone =>
          simp only [hone, true_and, pure, Except.pure, Except.ok.injEq]
          exact eq_comm
        case isFalse hone => exact ⟨nofun, fun h => absurd h.1 hone⟩

theorem rewired_of_replaceChild (h : a.replaceChild parent target replacement = .ok b) :
    Rewired a b parent target replacement := by
  obtain ⟨-, -, n, hn, hone, rfl⟩ := replaceChild_eq_ok.mp h
  obtain ⟨before, after, hsplit⟩ := List.append_of_mem (List.count_pos_iff.mp (hone ▸ Nat.one_pos))
  rw [hsplit, List.count_append, List.count_cons_self] at hone
  have hbefore : target ∉ before := List.count_eq_zero.mp (by omega)
  have hafter : target ∉ after := List.count_eq_zero.mp (by omega)
  have hlength : (before ++ replacement :: after).length = n.expr.children.length := by
    rw [hsplit, List.length_append, List.length_append, List.length_cons, List.length_cons]
  refine ⟨size_setExpr .., fun x hx => node?_setExpr_of_ne _ hx.symm, n, before, after,
    n.expr.redirect target replacement, hn, hsplit, ?_, ?_, ?_, ?_⟩
  · exact fun hmem => (List.mem_append.mp hmem).elim hbefore hafter
  · rw [setExpr, node?_update_self, hn]
    rfl
  · rw [Expr.redirect_eq hsplit hbefore hafter, Expr.children_withChildren _ _ hlength]
  · rw [Expr.redirect_eq hsplit hbefore hafter, Expr.withChildren_back _ hlength]

/-! ## Slots, ways down and parents -/

namespace Rewired

variable (h : Rewired a b parent target replacement)
include h

/-- One of the slots of the arena is pointed elsewhere. -/
theorem slots_split : ∃ l r, a.slots = l ++ target :: r ∧ b.slots = l ++ replacement :: r := by
  obtain ⟨n, before, after, e, hn, hsplit, -, hb, hchildren, -⟩ := h.slot
  have hinj : Function.Injective NodeId.mk := fun i j hij => NodeId.mk.inj hij
  have hnodup : ((List.range a.size).map NodeId.mk).Nodup := List.nodup_range.map hinj
  have hmem : parent ∈ (List.range a.size).map NodeId.mk :=
    List.mem_map.mpr ⟨parent.index, List.mem_range.mpr (lt_size_of_node? hn), rfl⟩
  obtain ⟨ls, rs, hids⟩ := List.append_of_mem hmem
  rw [hids, List.nodup_middle, List.nodup_cons, List.mem_append, not_or] at hnodup
  have hsame : ∀ ids : List NodeId, parent ∉ ids → ids.flatMap b.slotsAt = ids.flatMap a.slotsAt := by
    intro ids hids
    refine List.flatMap_congr fun x hx => ?_
    rw [slotsAt, slotsAt, h.others x fun e => hids (e ▸ hx)]
  have ha : a.slotsAt parent = before ++ target :: after := by
    rw [slotsAt, hn]
    exact hsplit
  have hb' : b.slotsAt parent = before ++ replacement :: after := by
    rw [slotsAt, hb]
    exact hchildren
  refine ⟨ls.flatMap a.slotsAt ++ before, after ++ rs.flatMap a.slotsAt, ?_, ?_⟩
  · rw [slots_eq, hids, List.flatMap_append, List.flatMap_cons, ha]
    simp only [List.append_assoc, List.cons_append]
  · rw [slots_eq, h.size, hids, List.flatMap_append, List.flatMap_cons, hb', hsame ls hnodup.1.1,
      hsame rs hnodup.1.2]
    simp only [List.append_assoc, List.cons_append]

theorem child (hchild : b.Child x y) : a.Child x y ∨ x = parent ∧ y = replacement := by
  obtain ⟨n, before, after, e, hn, hsplit, -, hb, hchildren, -⟩ := h.slot
  obtain ⟨m, hm, hy⟩ := hchild
  by_cases hx : x = parent
  · subst hx
    rw [hb] at hm
    cases hm
    simp only [hchildren, List.mem_append, List.mem_cons] at hy
    obtain hy | rfl | hy := hy
    · exact .inl ⟨n, hn, hsplit ▸ List.mem_append_left _ hy⟩
    · exact .inr ⟨rfl, rfl⟩
    · exact .inl ⟨n, hn, hsplit ▸ List.mem_append_right _ (List.mem_cons_of_mem _ hy)⟩
  · rw [h.others x hx] at hm
    exact .inl ⟨m, hm, hy⟩

/-- A way down was there before, or it goes through the slot that was changed; through that it goes
once, for the replacement does not have the parent below it. -/
theorem below (hapart : ¬ReflTransGen a.Child replacement parent) (hbelow : TransGen b.Child x y) :
    TransGen a.Child x y ∨ ReflTransGen a.Child x parent ∧ ReflTransGen a.Child replacement y := by
  induction hbelow with
  | single hchild =>
    obtain hold | ⟨rfl, rfl⟩ := h.child hchild
    · exact .inl (.single hold)
    · exact .inr ⟨.refl, .refl⟩
  | tail _ hchild ih =>
    obtain hold | ⟨rfl, rfl⟩ := h.child hchild
    · exact ih.imp (fun hbelow => hbelow.tail hold) fun hboth => ⟨hboth.1, hboth.2.tail hold⟩
    · obtain hbelow | ⟨-, hbelow⟩ := ih
      · exact .inr ⟨hbelow.to_reflTransGen, .refl⟩
      · exact absurd hbelow hapart

theorem acyclic (hapart : ¬ReflTransGen a.Child replacement parent)
    (hacyclic : ∀ x, ¬TransGen a.Child x x) (x : NodeId) : ¬TransGen b.Child x x := by
  intro hloop
  obtain hloop | ⟨hup, hdown⟩ := h.below hapart hloop
  · exact hacyclic x hloop
  · exact hapart (hdown.trans hup)

/-- A replacement that was in no slot is in one afterwards, and the target is in none. -/
theorem count_slots (hfree : replacement ∉ a.slots) (htarget : a.slots.count target ≤ 1) :
    b.slots.count replacement = 1 ∧ b.slots.count target = 0 ∧
      ∀ x, x ≠ target → x ≠ replacement → b.slots.count x = a.slots.count x := by
  obtain ⟨l, r, ha, hb⟩ := h.slots_split
  have hne : replacement ≠ target := by
    rintro rfl
    exact hfree (ha ▸ List.mem_append_right _ List.mem_cons_self)
  have hnone : a.slots.count replacement = 0 := List.count_eq_zero.mpr hfree
  simp only [ha, List.count_append, List.count_cons_self, List.count_cons_of_ne hne.symm]
    at hnone htarget
  simp only [ha, hb, List.count_append, List.count_cons_self, List.count_cons_of_ne hne]
  refine ⟨by omega, by omega, fun x ht hr => ?_⟩
  rw [List.count_cons_of_ne hr.symm, List.count_cons_of_ne ht.symm]

/-- Nodes still are in one slot at most. -/
theorem count_slots_le (hfree : replacement ∉ a.slots) (htarget : target.index < a.size)
    (hslots : ∀ x, x.index < a.size → a.slots.count x ≤ 1) (hx : x.index < b.size) :
    b.slots.count x ≤ 1 := by
  obtain ⟨hone, hnone, hsame⟩ := h.count_slots hfree (hslots target htarget)
  by_cases htarget : x = target
  · rw [htarget, hnone]
    exact Nat.zero_le 1
  · by_cases hreplacement : x = replacement
    · rw [hreplacement, hone]
    · rw [hsame x htarget hreplacement]
      exact hslots x (h.size ▸ hx)

theorem findParent_replacement (hone : b.slots.count replacement = 1)
    (hid : ∀ n, a.node? parent = some n → n.id = parent) :
    b.findParent replacement = .ok (some parent) := by
  obtain ⟨n, before, after, e, hn, -, -, hb, hchildren, -⟩ := h.slot
  rw [findParent_of_count (Nat.le_of_eq hone) hb
    (hchildren ▸ List.mem_append_right _ List.mem_cons_self)]
  exact congrArg (Except.ok ∘ some) (hid n hn)

end Rewired

end Arena

/-! ## The step -/

namespace Workspace

open Arena

/-- The step runs on the arena; when it is refused the workspace stays as it was. -/
theorem replaceChild_run (parent target replacement : NodeId) (w : Workspace) :
    replaceChild parent target replacement w =
      match w.arena.replaceChild parent target replacement with
      | .ok b => (.ok (), { w with
          arena := b, events := w.events.push (.childReplaced parent target replacement) })
      | .error d => (.error d, w) := by
  simp only [replaceChild, Action.bind_run, edit, onArena]
  cases w.arena.replaceChild parent target replacement with
  | ok b => rfl
  | error d => rfl

theorem replaceChild_ok {parent target replacement : NodeId} {w w' : Workspace}
    (h : replaceChild parent target replacement w = (.ok (), w')) :
    w.arena.replaceChild parent target replacement = .ok w'.arena := by
  rw [replaceChild_run] at h
  split at h
  case h_1 b hb =>
    cases h
    exact hb
  case h_2 => cases h

/-- A slot is pointed elsewhere if and only if the three nodes are there and `parent` lists `target`
once.  Then that slot holds the replacement and nothing else in the arena is changed; else nothing at
all is.  Where nodes have one parent at most and no node is below itself, this stays so if the
replacement had no parent and does not have `parent` below it: its parent is `parent` then, which is
found by the handle that its node carries, and the target has none. -/
theorem replaceChild_rewires (parent target replacement : NodeId) (w : Workspace) :
    ((∃ w', replaceChild parent target replacement w = (.ok (), w')) ↔
      (∃ n, w.arena.node? replacement = some n) ∧ (∃ n, w.arena.node? target = some n) ∧
        ∃ n, w.arena.node? parent = some n ∧ n.expr.children.count target = 1) ∧
    (∀ w', replaceChild parent target replacement w = (.ok (), w') →
      Rewired w.arena w'.arena parent target replacement) ∧
    (∀ d w', replaceChild parent target replacement w = (.error d, w') → w'.arena = w.arena) ∧
    ∀ w', replaceChild parent target replacement w = (.ok (), w') →
      (∀ x, x.index < w.arena.size → w.arena.slots.count x ≤ 1) →
      (∀ x, ¬TransGen w.arena.Child x x) → replacement ∉ w.arena.slots →
      ¬ReflTransGen w.arena.Child replacement parent →
        (∀ x, x.index < w'.arena.size → w'.arena.slots.count x ≤ 1) ∧
        (∀ x, ¬TransGen w'.arena.Child x x) ∧
        ((∀ n, w.arena.node? parent = some n → n.id = parent) →
          w'.arena.findParent replacement = .ok (some parent)) ∧
        w'.arena.findParent target = .ok none := by
  refine ⟨⟨?_, ?_⟩, fun w' h => rewired_of_replaceChild (replaceChild_ok h), ?_, ?_⟩
  · rintro ⟨w', h⟩
    obtain ⟨hreplacement, htarget, n, hn, hone, -⟩ := replaceChild_eq_ok.mp (replaceChild_ok h)
    exact ⟨hreplacement, htarget, n, hn, hone⟩
  · rintro ⟨hreplacement, htarget, n, hn, hone⟩
    rw [replaceChild_run, replaceChild_eq_ok.mpr ⟨hreplacement, htarget, n, hn, hone, rfl⟩]
    exact ⟨_, rfl⟩
  · intro d w' h
    rw [replaceChild_run] at h
    split at h
    case h_1 => cases h
    case h_2 =>
      cases h
      rfl
  · intro w' h hslots hacyclic hfree hapart
    have hrewired := rewired_of_replaceChild (replaceChild_ok h)
    obtain ⟨-, ⟨t, ht⟩, -⟩ := replaceChild_eq_ok.mp (replaceChild_ok h)
    have hfound := lt_size_of_node? ht
    obtain ⟨hone, hnone, -⟩ := hrewired.count_slots hfree (hslots target hfound)
    exact ⟨fun x hx => hrewired.count_slots_le hfree hfound hslots hx,
      hrewired.acyclic hapart hacyclic, hrewired.findParent_replacement hone,
      findParent_of_free (List.count_eq_zero.mp hnone)⟩

/-- A sum of two names, and a third name beside it. -/
def sumBesideName : Arena :=
  ⟨#[⟨⟨0⟩, ⟨.identifier, "x", ⟨0, 0, 0⟩⟩, [], .identifier "x"⟩,
    ⟨⟨1⟩, ⟨.identifier, "y", ⟨0, 4, 4⟩⟩, [], .identifier "y"⟩,
    ⟨⟨2⟩, ⟨.operator, "+", ⟨0, 2, 2⟩⟩, [], .binary "+" ⟨0⟩ ⟨1⟩ false⟩,
    ⟨⟨3⟩, ⟨.identifier, "z", ⟨0, 6, 6⟩⟩, [⟨"seen", none⟩], .identifier "z"⟩]⟩

theorem replaceChild_rewires_sumBesideName :
    ∃ w', replaceChild ⟨2⟩ ⟨1⟩ ⟨3⟩ { start .empty with arena := sumBesideName } = (.ok (), w') ∧
      Rewired sumBesideName w'.arena ⟨2⟩ ⟨1⟩ ⟨3⟩ ∧
      w'.arena.findParent ⟨3⟩ = .ok (some ⟨2⟩) ∧ w'.arena.findParent ⟨1⟩ = .ok none := by
  obtain ⟨hiff, hrewired, -, hforest⟩ :=
    replaceChild_rewires ⟨2⟩ ⟨1⟩ ⟨3⟩ { start .empty with arena := sumBesideName }
  obtain ⟨w', hrun⟩ := hiff.mpr ⟨⟨_, rfl⟩, ⟨_, rfl⟩, ⟨_, rfl, by decide⟩⟩
  have hslots : sumBesideName.slots.Nodup := by decide
  have hacyclic : ∀ x, ¬TransGen sumBesideName.Child x x := by
    intro x hloop
    obtain ⟨y, hchild, -⟩ := TransGen.head'_iff.mp hloop
    have hx : x.index ≤ 3 := Nat.le_of_lt_succ hchild.found
    exact Loopless.of_descending (by decide) hx x .refl hloop
  have hapart : ¬ReflTransGen sumBesideName.Child ⟨3⟩ ⟨2⟩ := by
    intro hreach
    obtain heq | ⟨y, hchild, -⟩ := ReflTransGen.cases_head hreach
    · cases heq
    · exact List.not_mem_nil (child_iff_mem_slotsAt.mp hchild)
  obtain ⟨-, -, hreplacement, htarget⟩ := hforest w' hrun
    (fun x _ => List.nodup_iff_count_le_one.mp hslots x) hacyclic (by decide) hapart
  refine ⟨w', hrun, hrewired w' hrun, hreplacement fun n hn => ?_, htarget⟩
  cases hn
  rfl

end Workspace

end ApiSyntax
