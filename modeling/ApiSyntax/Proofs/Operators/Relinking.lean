/-
  ApiSyntax/Proofs/Operators/Relinking.lean --- settling re-links open binaries.

  Settling overwrites nodes in place.  Whatever the arena and the table are, only the
  operands of open binaries change (`settleN_relinks`).  Where a joined grouping is held,
  the traversal of its open binaries stays the same, and no node outside of the traversal
  changes at all (`settle_relinks`).  The bound on the turns plays no part then.
-/
import ApiSyntax.Proofs.Operators.Binaries

set_option autoImplicit false

namespace ApiSyntax

open ApiSyntax.Arena

theorem OpenBinary.toExpr_inj {b c : OpenBinary} (h : b.toExpr = c.toExpr) : b = c :=
  Option.some.inj (congrArg Expr.openBinary? h)

/-! ## Arenas with other links -/

/-- The second node is the first one, or the same open binary with other operands. -/
structure Node.Relinked (n m : Node) : Prop where
  id : m.id = n.id
  token : m.token = n.token
  tags : m.tags = n.tags
  contents : m.expr = n.expr ∨
    ∃ b c : OpenBinary, n.expr = b.toExpr ∧ m.expr = c.toExpr ∧ c.operator = b.operator

theorem Node.Relinked.refl (n : Node) : n.Relinked n := ⟨rfl, rfl, rfl, .inl rfl⟩

theorem Node.Relinked.trans {n m k : Node} (h : n.Relinked m) (h' : m.Relinked k) :
    n.Relinked k := by
  refine ⟨h'.id.trans h.id, h'.token.trans h.token, h'.tags.trans h.tags, ?_⟩
  rcases h'.contents with hsame | ⟨b, c, hb, hc, hop⟩
  · rw [hsame]
    exact h.contents
  rcases h.contents with hsame | ⟨b', c', hb', hc', hop'⟩
  · exact .inr ⟨b, c, hsame ▸ hb, hc, hop⟩
  · obtain rfl := OpenBinary.toExpr_inj (hc'.symm.trans hb)
    exact .inr ⟨b', c, hb', hc, hop.trans hop'⟩

/-- The arenas have the same nodes, but for the operands of open binaries. -/
structure Arena.Relinks (a b : Arena) : Prop where
  size : b.size = a.size
  nodes : ∀ id n, a.node? id = some n → ∃ m, b.node? id = some m ∧ n.Relinked m

namespace Arena.Relinks

variable {a b c : Arena} {id : NodeId}

theorem refl (a : Arena) : a.Relinks a := ⟨rfl, fun _ n hn => ⟨n, hn, .refl n⟩⟩

theorem trans (h : a.Relinks b) (h' : b.Relinks c) : a.Relinks c := by
  refine ⟨h'.size.trans h.size, fun id n hn => ?_⟩
  obtain ⟨m, hm, hnm⟩ := h.nodes id n hn
  obtain ⟨k, hk, hmk⟩ := h'.nodes id m hm
  exact ⟨k, hk, hnm.trans hmk⟩

/-- An open binary gets other operands. -/
theorem setExpr {x y : OpenBinary} (h : a.expr id = .ok x.toExpr) (hop : y.operator = x.operator) :
    a.Relinks (a.setExpr id y.toExpr) := by
  refine ⟨size_setExpr .., fun other n hn => ?_⟩
  by_cases hid : id = other
  · subst hid
    obtain ⟨m, hm, hexpr⟩ := expr_eq_ok.mp h
    cases hn.symm.trans hm
    refine ⟨{ n with expr := y.toExpr }, ?_, rfl, rfl, rfl, .inr ⟨x, y, hexpr, rfl, hop⟩⟩
    rw [Arena.setExpr, node?_update_self, hn]
    rfl
  · refine ⟨n, ?_, .refl n⟩
    rw [node?_setExpr_of_ne _ hid]
    exact hn

/-- An open binary stays one, with its operator. -/
theorem expr_open {x : OpenBinary} (h : a.Relinks b) (hx : a.expr id = .ok x.toExpr) :
    ∃ y : OpenBinary, b.expr id = .ok y.toExpr ∧ y.operator = x.operator := by
  obtain ⟨n, hn, hexpr⟩ := expr_eq_ok.mp hx
  obtain ⟨m, hm, hnm⟩ := h.nodes id n hn
  rcases hnm.contents with hsame | ⟨x', y, hx', hy, hop⟩
  · exact ⟨x, expr_eq_ok.mpr ⟨m, hm, hsame.trans hexpr⟩, rfl⟩
  · obtain rfl := OpenBinary.toExpr_inj (hx'.symm.trans hexpr)
    exact ⟨y, expr_eq_ok.mpr ⟨m, hm, hy⟩, hop⟩

end Arena.Relinks

/-! ## Settling -/

namespace Workspace

variable {w : Workspace} {id : NodeId} {fuel more : Nat} {j : Joint} {left right : Grouping}

/-- Settling overwrites the operands of open binaries and nothing else, also where it fails. -/
theorem settleN_relinks (fuel : Nat) (id : NodeId) (w : Workspace) :
    w.arena.Relinks (settleN fuel id w).2.arena := by
  induction fuel generalizing id w with
  | zero => exact .refl _
  | succ fuel ih =>
    obtain (⟨d, hrun⟩ | hrun) | ⟨top, node, lifted, l, r, rejoin, e, h, hrun⟩ := settleN_cases id w
    · rw [hrun]
      exact .refl _
    · rw [hrun]
      exact .refl _
    · have hturned : w.arena.Relinks (w.rotated e id ⟨node.operator, l, r⟩).arena :=
        .setExpr h.node rfl
      have hrest := hturned.trans (ih id (w.rotated e id ⟨node.operator, l, r⟩))
      rw [hrun]
      revert hrest
      cases settleN fuel id (w.rotated e id ⟨node.operator, l, r⟩) with
      | mk result w' =>
        intro hrest
        cases result with
        | error d => exact hrest
        | ok settled =>
          obtain ⟨y, hy, hop⟩ := hrest.expr_open h.lifted
          exact hrest.trans (.setExpr hy ((h.operator settled).trans hop.symm))

/-- A run that does not use up its bound is the same on every larger one. -/
theorem settleN_of_le (hle : fuel ≤ more) (hdone : (settleN fuel id w).1 ≠ .error .exhausted) :
    settleN more id w = settleN fuel id w := by
  induction fuel generalizing more id w with
  | zero => exact absurd rfl hdone
  | succ fuel ih =>
    obtain ⟨more, rfl⟩ : ∃ k, more = k + 1 := ⟨more - 1, by omega⟩
    obtain (⟨d, hrun⟩ | hrun) | ⟨top, node, lifted, l, r, rejoin, e, h, hrun⟩ := settleN_cases id w
    · rw [hrun, hrun]
    · rw [hrun, hrun]
    · have hrest : (settleN fuel id (w.rotated e id ⟨node.operator, l, r⟩)).1 ≠
          .error .exhausted := by
        intro hused
        apply hdone
        rw [hrun]
        revert hused
        cases settleN fuel id (w.rotated e id ⟨node.operator, l, r⟩) with
        | mk result w' =>
          rintro ⟨⟩
          rfl
      rw [hrun, hrun, ih (Nat.le_of_succ_le_succ hle) hrest]

end Workspace

/-! ## What a grouping consists of -/

namespace Grouping

variable {a b : Arena} {g g' : Grouping} {t : Tree} {id : NodeId}

/-- The operands are parts of the tree. -/
theorem mem_subtrees_of_operand (ht : t ∈ g.chain.operands) : t ∈ g.tree.subtrees := by
  induction g with
  | operand u => exact List.mem_singleton.mp ht ▸ u.self_mem_subtrees
  | join j left right ihLeft ihRight =>
    rw [chain, Chain.operands_append, List.mem_append] at ht
    rcases ht with ht | ht
    · exact Tree.mem_subtrees.mpr (.inr ⟨left.tree, by simp [tree, Tree.children], ihLeft ht⟩)
    · exact Tree.mem_subtrees.mpr (.inr ⟨right.tree, by simp [tree, Tree.children], ihRight ht⟩)

/-- A node of the tree is in the traversal, or it belongs to an operand. -/
theorem handles_cases (hid : id ∈ g.tree.handles) :
    id ∈ g.chain.ids ∨ ∃ t ∈ g.chain.operands, id ∈ t.handles := by
  induction g with
  | operand t => exact .inr ⟨t, List.mem_cons_self, hid⟩
  | join j left right ihLeft ihRight =>
    rw [handles_join, List.mem_cons, List.mem_append] at hid
    rw [chain, Chain.ids_append, Chain.operands_append]
    simp only [List.mem_append, List.mem_cons]
    rcases hid with rfl | hid | hid
    · exact .inl (.inr (.inl rfl))
    · rcases ihLeft hid with hin | ⟨t, ht, hin⟩
      · exact .inl (.inl hin)
      · exact .inr ⟨t, .inl ht, hin⟩
    · rcases ihRight hid with hin | ⟨t, ht, hin⟩
      · exact .inl (.inr (.inr hin))
      · exact .inr ⟨t, .inr ht, hin⟩

/-- Where a grouping of the same chain takes the place of another one, and no tag changes, nothing
changes outside of the traversal. -/
theorem node?_of_regrouped (hrewrites : Rewrites a b g.tree g'.tree) (hrelinks : a.Relinks b)
    (hholds : a.Holds g.tree) (hchain : g'.chain = g.chain) (hid : id ∉ g.chain.ids) :
    b.node? id = a.node? id := by
  by_cases hin : id ∈ g.tree.handles
  · obtain hin | ⟨t, ht, hin⟩ := handles_cases hin
    · exact absurd hin hid
    · -- Both arenas hold the operand with that node.
      obtain ⟨u, hu, rfl⟩ := List.mem_map.mp hin
      have hbefore : a.Shows u := hholds u (Tree.mem_subtrees_trans hu (mem_subtrees_of_operand ht))
      have hafter : b.Shows u :=
        hrewrites.holds u (Tree.mem_subtrees_trans hu (mem_subtrees_of_operand (hchain ▸ ht)))
      obtain ⟨tags, hfound⟩ := hbefore.found
      obtain ⟨tags', hfound'⟩ := hafter.found
      obtain ⟨m, hm, hrelinked⟩ := hrelinks.nodes _ _ hfound
      cases hfound'.symm.trans hm
      have htags : tags' = tags := hrelinked.tags
      rw [hfound, hfound', htags]
  · exact hrewrites.outside id hin

end Grouping

namespace Workspace

variable {w : Workspace} {j : Joint} {left right : Grouping}

/-- What settling a joined grouping comes to, seen from the handles. -/
theorem settle_relinks (hholds : w.arena.Holds (Grouping.join j left right).tree)
    (hnodup : (Grouping.join j left right).tree.handles.Nodup)
    (hclosed : (Grouping.join j left right).Closed) :
    ∃ w' g, settle j.id w = (.ok g.root, w') ∧ g = Grouping.graft w.operators j left right ∧
      Rewrites w.arena w'.arena (Grouping.join j left right).tree g.tree ∧
      w.arena.Relinks w'.arena ∧
      w'.arena.InOrder g.root (left.chain.ids ++ j.id :: right.chain.ids) ∧
      (∀ id ∉ left.chain.ids ++ j.id :: right.chain.ids, w'.arena.node? id = w.arena.node? id) ∧
      ∀ fuel, 2 * w.arena.size + 2 ≤ fuel → settleN fuel j.id w = (.ok g.root, w') := by
  obtain ⟨w', hrun, hrewrites, -⟩ := settle_held hholds hnodup hclosed
  have hrelinks := settleN_relinks (2 * w.arena.size + 2) j.id w
  have hbound : settleN (2 * w.arena.size + 2) j.id w =
      (.ok (Grouping.graft w.operators j left right).root, w') := hrun
  rw [hbound] at hrelinks
  have hchain := Grouping.chain_graft w.operators j left right
  have hids : (Grouping.graft w.operators j left right).chain.ids =
      left.chain.ids ++ j.id :: right.chain.ids := by
    rw [hchain, Chain.ids_append]
  have hclosed' : (Grouping.graft w.operators j left right).Closed := by
    rwa [Grouping.Closed, hchain]
  refine ⟨w', _, hrun, rfl, hrewrites, hrelinks, ?_, fun id hid => ?_, fun fuel hfuel => ?_⟩
  · rw [← hids]
    exact Grouping.inOrder hrewrites.holds hclosed'
  · refine Grouping.node?_of_regrouped hrewrites hrelinks hholds hchain ?_
    rwa [Grouping.chain, Chain.ids_append]
  · rw [settleN_of_le hfuel, hbound]
    rw [hbound]
    rintro ⟨⟩

end Workspace

end ApiSyntax
