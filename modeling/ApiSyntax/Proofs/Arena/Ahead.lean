/-
  ApiSyntax/Proofs/Arena/Ahead.lean --- the same nodes, under handles that are ahead.

  Behind nodes that were made in passing a run goes on as it would have done without them, but
  every handle from there on is ahead by their number.  That is a likeness under which tokens
  are the same; it holds at the start if no older node tells of a handle that is still to come.

  An extension is portable when it acts alike on both sides of every such gap.  The extensions
  that every source text knows are, and so is one that changes nothing.
-/
import ApiSyntax.Proofs.Arena.Likeness

set_option autoImplicit false

namespace ApiSyntax

/-! ## Arenas that are closed -/

/-- Contents of which a renaming moves no handle stay as they are. -/
theorem Expr.rename_of_children {f : NodeId → NodeId} {e : Expr} (h : ∀ c ∈ e.children, f c = c) :
    e.rename f = e := by
  have hlist : ∀ ids : List NodeId, (∀ c ∈ ids, f c = c) → ids.map f = ids := fun ids hids =>
    (List.map_congr_left hids).trans (List.map_id ids)
  have hslot : ∀ slot : Option NodeId, (∀ c ∈ slot.toList, f c = c) → slot.map f = slot := by
    intro slot hslot
    cases slot with
    | none => rfl
    | some c => exact congrArg some (hslot c (by simp))
  cases e <;>
    simp only [children, List.mem_cons, List.mem_append, List.not_mem_nil, or_false, forall_eq,
      or_imp, forall_and] at h <;>
    simp +contextual [rename, *]

/-- The node tells of handles below `bound` only: its own, those in its slots and those in its
tags. -/
structure Node.Below (bound : Nat) (n : Node) : Prop where
  id : n.id.index < bound
  children : ∀ c ∈ n.expr.children, c.index < bound
  origins : ∀ t ∈ n.tags, ∀ o, t.origin = some o → o.index < bound

/-- No node tells of a handle that is still to come. -/
def Arena.Closed (a : Arena) : Prop := ∀ id n, a.node? id = some n → n.Below a.size

/-! ## Gaps -/

namespace Likeness

/-- From `first` on the handles of the second run are ahead, and nothing else differs. -/
def ahead (first gap : Nat) : Likeness := ⟨Eq, Eq, first, gap⟩

instance lawful_ahead (first gap : Nat) : (ahead first gap).Lawful where
  alike h := by
    cases h
    exact ⟨rfl, rfl⟩
  span h := congrArg Token.span h
  refl _ := rfl
  mark h := by
    cases h with
    | none => rfl
    | some h =>
      cases h
      rfl

theorem Nodes.of_below {first gap : Nat} {n : Node} (h : n.Below first) :
    (ahead first gap).Nodes n n where
  id := (move_of_lt h.id).symm
  token := rfl
  tags := by
    refine ((List.map_congr_left fun t ht => ?_).trans (List.map_id _)).symm
    obtain ⟨name, origin⟩ := t
    cases origin with
    | none => rfl
    | some o => exact congrArg (Tag.mk name ∘ some) (move_of_lt (h.origins _ ht o rfl))
  expr := (Expr.rename_of_children fun c hc => move_of_lt (h.children c hc)).symm

/-- An arena is like one that has grown out of it, when no old node tells of a new handle. -/
theorem Arenas.of_kept {a b : Arena} (hclosed : a.Closed) (hsize : a.size ≤ b.size)
    (hkept : ∀ id : NodeId, id.index < a.size → b.node? id = a.node? id) :
    (ahead a.size (b.size - a.size)).Arenas a b where
  first := Nat.le_refl _
  size := (Nat.add_sub_cancel' hsize).symm
  nodes id := by
    rcases Nat.lt_or_ge id.index a.size with hlt | hge
    · rw [move_of_lt hlt, hkept id hlt]
      cases hnode : a.node? id with
      | none => exact .none
      | some n => exact .some (.of_below (hclosed id n hnode))
    · rw [move_of_le hge, Arena.node?_eq_none.mpr hge, Arena.node?_eq_none.mpr]
      · exact .none
      · change b.size ≤ id.index + (b.size - a.size)
        omega

end Likeness

/-! ## Extensions -/

/-- The extension acts alike wherever the handles of a second run are ahead. -/
def Extension.Portable (e : Extension) : Prop := ∀ first gap, e.Respects (.ahead first gap)

/-- The extension succeeds, and leaves nodes and operators as they are. -/
def Extension.Inert (e : Extension) : Prop := ∀ site params w,
  ∃ w', e.invoke site params w = (.ok (), w') ∧ w'.arena = w.arena ∧ w'.operators = w.operators

theorem Extension.Inert.portable {e : Extension} (h : e.Inert) : e.Portable := by
  intro first gap site params w v hwv
  obtain ⟨w', hrun, harena, htable⟩ := h site params w
  obtain ⟨v', hrun', harena', htable'⟩ :=
    h ((Likeness.ahead first gap).site site) (params.map (Likeness.ahead first gap).move) v
  rw [hrun, hrun']
  exact ⟨.ok rfl, by rw [harena, harena']; exact hwv.arena, by rw [htable, htable', hwv.operators]⟩

theorem Registry.builtin_portable {name : String} {e : Extension}
    (h : Registry.builtin.get? name = some e) : e.Portable :=
  fun first gap => Registry.builtin_respects (.ahead first gap) name e h

end ApiSyntax
