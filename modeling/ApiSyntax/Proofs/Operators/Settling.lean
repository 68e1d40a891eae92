/-
  ApiSyntax/Proofs/Operators/Settling.lean --- settling a node carries out a graft.

  Settling looks at handles and overwrites nodes; grafting works on groupings.  Where an
  arena holds the tree of a joined grouping, settling its root rewrites exactly that tree
  into the tree of the grafted grouping.  Each turn leaves a smaller tree to settle, so a
  bound no smaller than the tree is enough.
-/
import ApiSyntax.Proofs.Arena.Growth
import ApiSyntax.Proofs.Operators.Grouping

set_option autoImplicit false

namespace ApiSyntax

open ApiSyntax.Tree

namespace Grouping

/-- No operand is itself a binary node without parentheses. -/
def Closed (g : Grouping) : Prop := ∀ t ∈ g.chain.operands, t.expr.openBinary? = none

/-- The node on top with its operands, if there is an operator. -/
def open? : Grouping → Option OpenBinary
  | operand _ => none
  | join j left right => some ⟨j.operator, left.root, right.root⟩

theorem closed_join {j : Joint} {left right : Grouping} :
    (join j left right).Closed ↔ left.Closed ∧ right.Closed := by
  simp only [Closed, chain, Chain.operands_append, List.mem_append]
  exact ⟨fun h => ⟨fun t ht => h t (.inl ht), fun t ht => h t (.inr ht)⟩,
    fun h t ht => ht.elim (h.1 t) (h.2 t)⟩

theorem closed_group {table : OperatorTable} {c : Chain}
    (h : ∀ t ∈ c.operands, t.expr.openBinary? = none) : (c.group table).Closed := by
  rwa [Closed, chain_group]

@[simp] theorem root_join (j : Joint) (left right : Grouping) : (join j left right).root = j.id :=
  rfl

theorem handles_join (j : Joint) (left right : Grouping) :
    (join j left right).tree.handles = j.id :: (left.tree.handles ++ right.tree.handles) := by
  rw [tree, handles_node, handlesOf_cons, handlesOf_cons, handlesOf_nil, List.append_nil]

theorem openBinary?_tree {g : Grouping} (h : g.Closed) : g.tree.expr.openBinary? = g.open? := by
  cases g with
  | operand t => exact h t List.mem_cons_self
  | join j left right => rfl

end Grouping

namespace Turn

open Grouping

/-- The right operand is lifted when it is on top of an operator that binds looser. -/
theorem ofRight_run {a : Arena} {table : OperatorTable} {j : Joint} {left right : Grouping}
    (hright : a.Holds right.tree) (hclosed : right.Closed) :
    ofRight a table ⟨j.operator, left.root, right.root⟩ = .ok (match right.open? with
      | some lifted =>
          if table.precedence lifted.operator j.operator = .lesser then
            .liftRight ⟨j.operator, left.root, right.root⟩ lifted
          else .stay
      | none => .stay) := by
  have hexpr : a.expr right.root = .ok right.tree.expr := hright.shows.expr
  rw [← openBinary?_tree hclosed]
  unfold ofRight
  rw [hexpr]
  rfl

theorem ofBinary_run {a : Arena} {table : OperatorTable} {j : Joint} {left right : Grouping}
    (hleft : a.Holds left.tree) (hclosed : left.Closed) :
    ofBinary a table ⟨j.operator, left.root, right.root⟩ = (match left.open? with
      | some lifted =>
          if table.precedence j.operator lifted.operator = .greater then
            .ok (.liftLeft ⟨j.operator, left.root, right.root⟩ lifted)
          else ofRight a table ⟨j.operator, left.root, right.root⟩
      | none => ofRight a table ⟨j.operator, left.root, right.root⟩) := by
  simp only [ofBinary, Grouping.root, hleft.shows.expr, bind, Except.bind,
    openBinary?_tree hclosed]
  rfl

theorem of_run {a : Arena} {table : OperatorTable} {j : Joint} {left right : Grouping}
    (h : a.Holds (join j left right).tree) :
    Turn.of a table j.id = ofBinary a table ⟨j.operator, left.root, right.root⟩ := by
  have hexpr : a.expr j.id = .ok (join j left right).tree.expr := h.shows.expr
  simp only [Turn.of, hexpr, bind, Except.bind]
  rfl

end Turn

namespace Workspace

open Grouping Arena

/-- What settling comes to: the tree is rewritten into that of the grouping, and the operators
stay as they are. -/
def SettlesTo (run : Action Workspace Stop NodeId) (w : Workspace) (t : Tree) (g : Grouping) :
    Prop :=
  ∃ w', run w = (.ok g.root, w') ∧ Rewrites w.arena w'.arena t g.tree ∧
    w'.operators = w.operators

variable {j : Joint} {left right : Grouping} {w : Workspace} {fuel : Nat}

/-- Settling ends at once when no turn is needed. -/
theorem settleN_stay (hturn : Turn.of w.arena w.operators j.id = .ok .stay)
    (hholds : w.arena.Holds (join j left right).tree) :
    SettlesTo (settleN (fuel + 1) j.id) w (join j left right).tree (join j left right) := by
  refine ⟨w, ?_, ⟨rfl, fun _ _ => rfl, hholds, .refl _⟩, rfl⟩
  simp only [settleN, Action.bind_run, ask, hturn, Action.mapError_ok]
  rfl

/-- The workspace at which the rest is settled: the node has new operands. -/
def turned (w : Workspace) (e : Event) (j : Joint) (left right : Grouping) : Workspace :=
  { w with
    events := w.events.push e
    arena := w.arena.setExpr j.id (.binary j.operator left.root right.root false) }

/-- The turned node is held with its new operands. -/
theorem holds_turned {t : Tree} {k : Joint} {before after : List Tree} {tags : List Tag}
    {old : Expr} {e : Event} (hfound : w.arena.node? j.id = some ⟨j.id, j.token, tags, old⟩)
    (hleft : w.arena.Holds left.tree) (hright : w.arena.Holds right.tree)
    (hnodup : t.handles.Nodup)
    (hsplit : t.handles.Perm (k.id :: handlesOf (before ++ (join j left right).tree :: after))) :
    (w.turned e j left right).arena.Holds (join j left right).tree := by
  refine holds_setExpr hfound rfl ?_ ?_
  · intro c hc
    rcases List.mem_cons.mp hc with rfl | hc
    · exact hleft
    · exact List.mem_singleton.mp hc ▸ hright
  · have hparts := hsplit.nodup_iff.mp hnodup
    rw [handlesOf_append, handlesOf_cons, handles_join] at hparts
    have hinner := ((List.nodup_append'.mp (List.nodup_cons.mp hparts).2).2.1)
    have hroot := (List.nodup_cons.mp (List.nodup_append'.mp hinner).1).1
    rwa [handlesOf_cons, handlesOf_cons, handlesOf_nil, List.append_nil]

/-- A turn to the left: the rest is settled under the left operand. -/
theorem settleN_liftLeft {k : Joint} {inner outer settled : Grouping}
    (hturn : Turn.of w.arena w.operators j.id = .ok (.liftLeft
      ⟨j.operator, k.id, right.root⟩ ⟨k.operator, outer.root, inner.root⟩))
    (hholds : w.arena.Holds (join j (join k outer inner) right).tree)
    (hnodup : (join j (join k outer inner) right).tree.handles.Nodup)
    (hrest : ∀ v : Workspace, v.operators = w.operators →
      v.arena.Holds (join j inner right).tree →
      SettlesTo (settleN fuel j.id) v (join j inner right).tree settled) :
    SettlesTo (settleN (fuel + 1) j.id) w (join j (join k outer inner) right).tree
      (join k outer settled) := by
  have hsplit : (join j (join k outer inner) right).tree.handles.Perm
      (k.id :: handlesOf ([outer.tree] ++ (join j inner right).tree :: [])) := by
    simp only [handles_join, List.cons_append, List.nil_append, handlesOf_cons, handlesOf_nil,
      List.append_nil, List.append_assoc]
    exact (List.Perm.swap _ _ _).trans (.cons _ List.perm_middle.symm)
  have hleft : w.arena.Holds (join k outer inner).tree := hholds.child List.mem_cons_self
  have hinner : w.arena.Holds inner.tree := hleft.child (List.mem_cons_of_mem _ List.mem_cons_self)
  have hright : w.arena.Holds right.tree := hholds.child (List.mem_cons_of_mem _ List.mem_cons_self)
  obtain ⟨tags, htags⟩ := hholds.shows.found
  obtain ⟨tags', htags'⟩ := hleft.shows.found
  obtain ⟨v, hrun, hrewrites, hoperators⟩ :=
    hrest (w.turned (.rotating j.operator k.operator .left) j inner right) rfl
      (holds_turned htags hinner hright hnodup hsplit)
  refine ⟨{ v with
    arena := v.arena.setExpr k.id (.binary k.operator outer.root settled.root false) },
    ?_, ?_, hoperators⟩
  · simp only [settleN, Action.bind_run, ask, hturn, Action.mapError_ok]
    simp only [note, Action.change, setBinary, onArena, OpenBinary.toExpr]
    simp only [turned] at hrun
    rw [hrun]
    rfl
  · refine Rewrites.lift (r := []) htags' ?_ hnodup hsplit hrewrites rfl
    intro c hc
    rw [List.append_nil, List.mem_singleton] at hc
    exact hc ▸ hleft.child List.mem_cons_self

/-- A turn to the right: the rest is settled under the right operand. -/
theorem settleN_liftRight {k : Joint} {inner outer settled : Grouping}
    (hturn : Turn.of w.arena w.operators j.id = .ok (.liftRight
      ⟨j.operator, left.root, k.id⟩ ⟨k.operator, inner.root, outer.root⟩))
    (hholds : w.arena.Holds (join j left (join k inner outer)).tree)
    (hnodup : (join j left (join k inner outer)).tree.handles.Nodup)
    (hrest : ∀ v : Workspace, v.operators = w.operators →
      v.arena.Holds (join j left inner).tree →
      SettlesTo (settleN fuel j.id) v (join j left inner).tree settled) :
    SettlesTo (settleN (fuel + 1) j.id) w (join j left (join k inner outer)).tree
      (join k settled outer) := by
  have hsplit : (join j left (join k inner outer)).tree.handles.Perm
      (k.id :: handlesOf ([] ++ (join j left inner).tree :: [outer.tree])) := by
    simp only [handles_join, List.nil_append, handlesOf_cons, handlesOf_nil, List.append_nil,
      List.cons_append, List.append_assoc]
    exact (List.Perm.cons _ List.perm_middle).trans (.swap _ _ _)
  have hright : w.arena.Holds (join k inner outer).tree :=
    hholds.child (List.mem_cons_of_mem _ List.mem_cons_self)
  have hinner : w.arena.Holds inner.tree := hright.child List.mem_cons_self
  have hleft : w.arena.Holds left.tree := hholds.child List.mem_cons_self
  obtain ⟨tags, htags⟩ := hholds.shows.found
  obtain ⟨tags', htags'⟩ := hright.shows.found
  obtain ⟨v, hrun, hrewrites, hoperators⟩ :=
    hrest (w.turned (.rotating j.operator k.operator .right) j left inner) rfl
      (holds_turned htags hleft hinner hnodup hsplit)
  refine ⟨{ v with
    arena := v.arena.setExpr k.id (.binary k.operator settled.root outer.root false) },
    ?_, ?_, hoperators⟩
  · simp only [settleN, Action.bind_run, ask, hturn, Action.mapError_ok]
    simp only [note, Action.change, setBinary, onArena, OpenBinary.toExpr]
    simp only [turned] at hrun
    rw [hrun]
    rfl
  · refine Rewrites.lift (l := []) htags' ?_ hnodup hsplit hrewrites rfl
    intro c hc
    rw [List.nil_append, List.mem_singleton] at hc
    exact hc ▸ hright.child (List.mem_cons_of_mem _ List.mem_cons_self)

/-- The operator on top of the left operand, if there is one, is none that `j` binds tighter
than. -/
def Bound (table : OperatorTable) (j : Joint) (left : Grouping) : Prop :=
  ∀ k outer inner, left = join k outer inner → table.precedence j.operator k.operator ≠ .greater

/-- When nothing is to be lifted on the left, the right operand decides. -/
theorem turn_of_bound (hbound : Bound w.operators j left)
    (hholds : w.arena.Holds (join j left right).tree) (hclosed : (join j left right).Closed) :
    Turn.of w.arena w.operators j.id = .ok (match right.open? with
      | some lifted =>
          if w.operators.precedence lifted.operator j.operator = .lesser then
            .liftRight ⟨j.operator, left.root, right.root⟩ lifted
          else .stay
      | none => .stay) := by
  obtain ⟨hleft, hright⟩ := closed_join.mp hclosed
  rw [Turn.of_run hholds, Turn.ofBinary_run (hholds.child List.mem_cons_self) hleft,
    Turn.ofRight_run (hholds.child (List.mem_cons_of_mem _ List.mem_cons_self)) hright]
  cases left with
  | operand t => rfl
  | join k outer inner => simp only [open?, if_neg (hbound k outer inner rfl)]

/-- The operator on top of the left operand is lifted when `j` binds tighter. -/
theorem turn_of_greater {k : Joint} {inner outer : Grouping}
    (hgreater : w.operators.precedence j.operator k.operator = .greater)
    (hholds : w.arena.Holds (join j (join k outer inner) right).tree)
    (hclosed : (join j (join k outer inner) right).Closed) :
    Turn.of w.arena w.operators j.id = .ok (.liftLeft
      ⟨j.operator, k.id, right.root⟩ ⟨k.operator, outer.root, inner.root⟩) := by
  obtain ⟨hleft, _⟩ := closed_join.mp hclosed
  rw [Turn.of_run hholds, Turn.ofBinary_run (hholds.child List.mem_cons_self) hleft]
  simp only [open?, root_join, if_pos hgreater]

/-- Behind a turn to the left fewer nodes are left to settle, and they are still different ones. -/
theorem handles_leftInner {k : Joint} {inner outer : Grouping}
    (hnodup : (join j (join k outer inner) right).tree.handles.Nodup) :
    (join j inner right).tree.handles.Nodup ∧
      (join j inner right).tree.handles.length <
        (join j (join k outer inner) right).tree.handles.length := by
  simp only [handles_join] at hnodup ⊢
  refine ⟨hnodup.sublist (List.Sublist.cons_cons _ (List.Sublist.append_right ?_ _)), ?_⟩
  · exact (List.sublist_append_right _ _).cons _
  · simp only [List.length_cons, List.length_append]
    omega

/-- Behind a turn to the right the same holds. -/
theorem handles_rightInner {k : Joint} {inner outer : Grouping}
    (hnodup : (join j left (join k inner outer)).tree.handles.Nodup) :
    (join j left inner).tree.handles.Nodup ∧
      (join j left inner).tree.handles.length <
        (join j left (join k inner outer)).tree.handles.length := by
  simp only [handles_join] at hnodup ⊢
  refine ⟨hnodup.sublist (List.Sublist.cons_cons _ (List.Sublist.append_left ?_ _)), ?_⟩
  · exact (List.sublist_append_left _ _).cons _
  · simp only [List.length_cons, List.length_append]
    omega

/-- When nothing is to be lifted on the left, settling goes down the left edge of the right
operand. -/
theorem settleN_sinkRight (hbound : Bound w.operators j left)
    (hholds : w.arena.Holds (join j left right).tree)
    (hnodup : (join j left right).tree.handles.Nodup) (hclosed : (join j left right).Closed)
    (hfuel : (join j left right).tree.handles.length ≤ fuel) :
    SettlesTo (settleN fuel j.id) w (join j left right).tree
      (sinkRight w.operators j left right) := by
  induction right generalizing w fuel with
  | operand t =>
    have hturn := turn_of_bound hbound hholds hclosed
    obtain ⟨fuel, rfl⟩ : ∃ n, fuel = n + 1 :=
      ⟨fuel - 1, by rw [handles_join, List.length_cons] at hfuel; omega⟩
    exact settleN_stay hturn hholds
  | join k inner outer ihInner _ =>
    have hturn := turn_of_bound hbound hholds hclosed
    obtain ⟨hnodup', hfewer⟩ := handles_rightInner hnodup
    obtain ⟨fuel, rfl⟩ : ∃ n, fuel = n + 1 := ⟨fuel - 1, by omega⟩
    simp only [open?, root_join] at hturn
    rw [sinkRight]
    split
    · next hlesser =>
      rw [if_pos hlesser] at hturn
      refine settleN_liftRight hturn hholds hnodup fun v hv hheld => ?_
      rw [← hv] at hbound ⊢
      obtain ⟨hleft, hright⟩ := closed_join.mp hclosed
      have hclosed' := closed_join (j := j).mpr ⟨hleft, (closed_join.mp hright).1⟩
      exact ihInner hbound hheld hnodup' hclosed' (by omega)
    · next hnot =>
      rw [if_neg hnot] at hturn
      exact settleN_stay hturn hholds

/-- Settling goes down the right edge of the left operand first. -/
theorem settleN_graft (hholds : w.arena.Holds (join j left right).tree)
    (hnodup : (join j left right).tree.handles.Nodup) (hclosed : (join j left right).Closed)
    (hfuel : (join j left right).tree.handles.length ≤ fuel) :
    SettlesTo (settleN fuel j.id) w (join j left right).tree
      (graft w.operators j left right) := by
  unfold graft
  induction left generalizing w fuel with
  | operand t =>
    refine settleN_sinkRight (fun k outer inner h => ?_) hholds hnodup hclosed hfuel
    cases h
  | join k outer inner _ ihInner =>
    rw [sinkLeft]
    split
    · next hgreater =>
      have hturn := turn_of_greater hgreater hholds hclosed
      obtain ⟨hnodup', hfewer⟩ := handles_leftInner hnodup
      obtain ⟨fuel, rfl⟩ : ∃ n, fuel = n + 1 := ⟨fuel - 1, by omega⟩
      refine settleN_liftLeft hturn hholds hnodup fun v hv hheld => ?_
      rw [← hv]
      obtain ⟨hleft, hright⟩ := closed_join.mp hclosed
      have hclosed' := closed_join (j := j).mpr ⟨(closed_join.mp hleft).2, hright⟩
      exact ihInner hheld hnodup' hclosed' (by omega)
    · next hnot =>
      refine settleN_sinkRight ?_ hholds hnodup hclosed hfuel
      intro k' outer' inner' h
      cases h
      exact hnot

/-- Settling a joined grouping that is held grafts the operator between the two sides. -/
theorem settle_held (hholds : w.arena.Holds (join j left right).tree)
    (hnodup : (join j left right).tree.handles.Nodup) (hclosed : (join j left right).Closed) :
    SettlesTo (settle j.id) w (join j left right).tree (graft w.operators j left right) := by
  have hle := hholds.length_handles_le hnodup
  exact settleN_graft hholds hnodup hclosed (by omega)

/-- Settling a joined grouping of a forest grafts the operator between the two sides. -/
theorem settle_run {base : Arena} {ts : List Tree} (h : Grows base w.arena ts)
    (ht : (join j left right).tree ∈ ts) (hclosed : (join j left right).Closed) :
    SettlesTo (settle j.id) w (join j left right).tree (graft w.operators j left right) :=
  settle_held (h.holds ht) (h.nodup_handles ht) hclosed

end Workspace

end ApiSyntax
