/-
  ApiSyntax/Proofs/Arena/Follows.lean --- what stays of the nodes of an arena.

  While a text is read, nodes are made, copied, settled and put between parentheses.  None
  of this takes a node away or changes its token; and only binary nodes are overwritten,
  which keep their operator.  This holds of every arena, be it a forest or not.
-/
import ApiSyntax.Grammar.Expression

set_option autoImplicit false

namespace ApiSyntax

/-! ## Contents that are alike -/

/-- The contents are the same, or both are binaries with the same operator. -/
inductive Expr.Alike : Expr → Expr → Prop
  | refl (e : Expr) : Alike e e
  | binary (operator : String) (left right left' right' : NodeId) (p p' : Bool) :
      Alike (.binary operator left right p) (.binary operator left' right' p')

namespace Expr.Alike

variable {e e' e'' : Expr}

theorem trans (h : e.Alike e') (h' : e'.Alike e'') : e.Alike e'' := by
  cases h with
  | refl => exact h'
  | binary =>
    cases h' with
    | refl => exact .binary ..
    | binary => exact .binary ..

theorem kind_eq (h : e.Alike e') : e'.kind = e.kind := by
  cases h <;> rfl

/-- Contents of another kind stay the same. -/
theorem eq_of_kind (h : e.Alike e') (hkind : e.kind ≠ .binary) : e' = e := by
  cases h with
  | refl => rfl
  | binary => exact absurd rfl hkind

theorem symm (h : e.Alike e') : e'.Alike e := by
  cases h with
  | refl => exact .refl _
  | binary => exact .binary ..

theorem of_operator {b b' : OpenBinary} (h : b'.operator = b.operator) :
    b.toExpr.Alike b'.toExpr := by
  rw [OpenBinary.toExpr, OpenBinary.toExpr, h]
  exact .binary ..

theorem enclose (e : Expr) : e.Alike (Grammar.Expr.enclose e) := by
  cases e with
  | binary => exact .binary ..
  | _ => exact .refl _

end Expr.Alike

theorem Expr.openBinary?_eq_some {e : Expr} {b : OpenBinary} (h : e.openBinary? = some b) :
    e = b.toExpr := by
  unfold openBinary? at h
  split at h
  · cases h
    rfl
  · cases h

/-! ## Arenas that follow -/

namespace Arena

/-- Every node of the first arena is in the second one, with its token and with contents that are
alike. -/
def Follows (a b : Arena) : Prop :=
  ∀ id n, a.node? id = some n → ∃ n', b.node? id = some n' ∧ n'.token = n.token ∧
    n.expr.Alike n'.expr

variable {a b c : Arena} {id : NodeId} {e : Expr}

theorem expr_eq_ok : a.expr id = .ok e ↔ ∃ n, a.node? id = some n ∧ n.expr = e := by
  unfold expr node
  cases a.node? id with
  | none => exact ⟨nofun, nofun⟩
  | some n => simp [Except.map]

theorem expr_setExpr_self (h : a.expr id = .ok e) (e' : Expr) : (a.setExpr id e').expr id = .ok e' := by
  obtain ⟨n, hn, -⟩ := expr_eq_ok.mp h
  apply expr_eq_ok.mpr
  rw [setExpr, node?_update_self, hn]
  exact ⟨_, rfl, rfl⟩

theorem expr_setExpr_of_ne {other : NodeId} (h : id ≠ other) (e' : Expr) :
    (a.setExpr id e').expr other = a.expr other := by
  unfold expr node
  rw [setExpr, node?_update_of_ne _ h]

theorem expr_push_next (a : Arena) (token : Token) (e : Expr) :
    (a.push token e).expr a.next = .ok e := by
  apply expr_eq_ok.mpr
  exact ⟨_, node?_push_next a token e, rfl⟩

theorem lt_size_of_node? {n : Node} (h : a.node? id = some n) : id.index < a.size :=
  (Array.getElem?_eq_some_iff.mp h).1

/-- A node of the longer arena is the new one or an old one. -/
theorem expr_push {token : Token} {e' : Expr} (h : (a.push token e').expr id = .ok e) :
    id = a.next ∧ e = e' ∨ a.expr id = .ok e := by
  obtain ⟨n, hn, hne⟩ := expr_eq_ok.mp h
  have hlt := lt_size_of_node? hn
  rw [size_push] at hlt
  by_cases hid : id.index < a.size
  · rw [node?_push_of_lt hid] at hn
    exact .inr (expr_eq_ok.mpr ⟨n, hn, hne⟩)
  · left
    have hnext : id = a.next := by
      cases id
      simp only [next, NodeId.mk.injEq] at hid hlt ⊢
      omega
    subst hnext
    rw [node?_push_next] at hn
    cases hn
    exact ⟨rfl, hne.symm⟩

namespace Follows

theorem refl (a : Arena) : a.Follows a := fun _ n h => ⟨n, h, rfl, .refl _⟩

theorem trans (h : a.Follows b) (h' : b.Follows c) : a.Follows c := by
  intro id n hn
  obtain ⟨n', hn', htoken, halike⟩ := h id n hn
  obtain ⟨n'', hn'', htoken', halike'⟩ := h' id n' hn'
  exact ⟨n'', hn'', htoken'.trans htoken, halike.trans halike'⟩

/-- The contents that were there are there still, but for the operands of binaries. -/
theorem expr (h : a.Follows b) (he : a.expr id = .ok e) : ∃ e', b.expr id = .ok e' ∧ e.Alike e' := by
  obtain ⟨n, hn, rfl⟩ := expr_eq_ok.mp he
  obtain ⟨n', hn', -, halike⟩ := h id n hn
  exact ⟨n'.expr, expr_eq_ok.mpr ⟨n', hn', rfl⟩, halike⟩

theorem expr_of_kind (h : a.Follows b) (he : a.expr id = .ok e) (hkind : e.kind ≠ .binary) :
    b.expr id = .ok e := by
  obtain ⟨e', he', halike⟩ := h.expr he
  rwa [halike.eq_of_kind hkind] at he'

theorem push (a : Arena) (token : Token) (e : Expr) : a.Follows (a.push token e) := by
  intro id n hn
  refine ⟨n, ?_, rfl, .refl _⟩
  rw [node?_push_of_lt (lt_size_of_node? hn)]
  exact hn

/-- A node is changed, but for its token, and has contents that are alike. -/
theorem update {f : Node → Node}
    (hf : ∀ n, a.node? id = some n → (f n).token = n.token ∧ n.expr.Alike (f n).expr) :
    a.Follows (a.update id f) := by
  intro other n hn
  by_cases hid : id = other
  · subst hid
    refine ⟨f n, ?_, hf n hn⟩
    rw [node?_update_self, hn]
    rfl
  · refine ⟨n, ?_, rfl, .refl _⟩
    rw [node?_update_of_ne f hid]
    exact hn

theorem setExpr {e' : Expr} (h : a.expr id = .ok e) (halike : e.Alike e') :
    a.Follows (a.setExpr id e') := by
  apply update
  intro n hn
  obtain ⟨m, hm, rfl⟩ := expr_eq_ok.mp h
  rw [hn] at hm
  cases hm
  exact ⟨rfl, halike⟩

theorem tag {t : Tag} {new : Bool} (h : a.tag id t = .ok (new, b)) : a.Follows b := by
  unfold Arena.tag at h
  cases hnode : a.node id with
  | error d =>
    rw [hnode] at h
    cases h
  | ok n =>
    rw [hnode, Except.map] at h
    split at h
    · cases h
      exact refl a
    · cases h
      exact update fun _ _ => ⟨rfl, .refl _⟩

end Follows

end Arena

/-! ## Copying -/

namespace Arena

variable {a : Arena}

theorem copyN_none {fuel : Nat} {id : NodeId} (h : a.node? id = none) :
    copyN (fuel + 1) id a = (.error (.failed (.of (.unknownNode id))), a) := by
  simp only [copyN, h]

/-- A node is copied behind the copies of its children. -/
theorem copyN_some {fuel : Nat} {id : NodeId} {n : Node} (h : a.node? id = some n) :
    copyN (fuel + 1) id a =
      match n.expr.children.mapM (copyN fuel) a with
      | (.ok copies, b) => (.ok b.next, b.push n.token (n.expr.withChildren copies))
      | (.error d, b) => (.error d, b) := by
  simp only [copyN, h, Action.bind_run]
  cases n.expr.children.mapM (copyN fuel) a with
  | mk results b => cases results <;> rfl

/-- A copy is made behind all nodes, and its contents are of the kind that was copied. -/
theorem copyN_follows (fuel : Nat) (id : NodeId) (a : Arena) :
    a.Follows (copyN fuel id a).2 ∧ ∀ copy, (copyN fuel id a).1 = .ok copy →
      ∃ e e', a.expr id = .ok e ∧ (copyN fuel id a).2.expr copy = .ok e' ∧ e'.kind = e.kind := by
  induction fuel generalizing id a with
  | zero => exact ⟨.refl a, fun _ h => nomatch h⟩
  | succ fuel ih =>
    cases hnode : a.node? id with
    | none =>
      rw [copyN_none hnode]
      exact ⟨.refl a, fun _ h => nomatch h⟩
    | some n =>
      have hchildren := Action.mapM_rel .refl .trans (fun id (_ : id ∈ n.expr.children) a =>
        (ih id a).1) a
      rw [copyN_some hnode]
      cases hruns : n.expr.children.mapM (copyN fuel) a with
      | mk results b =>
        rw [hruns] at hchildren
        cases results with
        | error d => exact ⟨hchildren, fun _ h => nomatch h⟩
        | ok copies =>
          refine ⟨hchildren.trans (.push b n.token (n.expr.withChildren copies)), fun copy h => ?_⟩
          cases h
          exact ⟨n.expr, _, expr_eq_ok.mpr ⟨n, hnode, rfl⟩, expr_push_next b n.token _,
            Expr.kind_withChildren _ _⟩

end Arena

/-! ## Settling -/

namespace Turn

variable {a : Arena} {t : OperatorTable} {id : NodeId} {node : OpenBinary} {turn : Turn}

theorem ofRight_ok (h : ofRight a t node = .ok turn) :
    turn = .stay ∨ ∃ lifted, turn = .liftRight node lifted ∧
      a.expr node.right = .ok lifted.toExpr := by
  unfold ofRight at h
  cases he : a.expr node.right with
  | error d =>
    rw [he] at h
    cases h
  | ok e =>
    rw [he, Except.map] at h
    cases hopen : e.openBinary? with
    | none =>
      simp only [hopen] at h
      exact .inl (Except.ok.inj h).symm
    | some lifted =>
      simp only [hopen] at h
      split at h
      · rw [Expr.openBinary?_eq_some hopen]
        exact .inr ⟨lifted, (Except.ok.inj h).symm, rfl⟩
      · exact .inl (Except.ok.inj h).symm

theorem ofBinary_ok (h : ofBinary a t node = .ok turn) :
    turn = .stay ∨ ∃ lifted,
      turn = .liftLeft node lifted ∧ a.expr node.left = .ok lifted.toExpr ∨
        turn = .liftRight node lifted ∧ a.expr node.right = .ok lifted.toExpr := by
  have hright : ofRight a t node = .ok turn → turn = .stay ∨ ∃ lifted,
      turn = .liftLeft node lifted ∧ a.expr node.left = .ok lifted.toExpr ∨
        turn = .liftRight node lifted ∧ a.expr node.right = .ok lifted.toExpr := by
    intro h
    obtain hstay | ⟨lifted, hlifted⟩ := ofRight_ok h
    · exact .inl hstay
    · exact .inr ⟨lifted, .inr hlifted⟩
  unfold ofBinary at h
  cases he : a.expr node.left with
  | error d =>
    rw [he] at h
    cases h
  | ok e =>
    simp only [he, bind, Except.bind] at h
    cases hopen : e.openBinary? with
    | none =>
      simp only [hopen] at h
      exact he ▸ hright h
    | some lifted =>
      simp only [hopen] at h
      split at h
      · rw [Expr.openBinary?_eq_some hopen]
        exact .inr ⟨lifted, .inl ⟨(Except.ok.inj h).symm, rfl⟩⟩
      · exact he ▸ hright h

/-- A turn is about an open binary, and it lifts one of its operands, which is another one. -/
theorem of_ok (h : Turn.of a t id = .ok turn) :
    turn = .stay ∨ ∃ node lifted, a.expr id = .ok node.toExpr ∧
      (turn = .liftLeft node lifted ∧ a.expr node.left = .ok lifted.toExpr ∨
        turn = .liftRight node lifted ∧ a.expr node.right = .ok lifted.toExpr) := by
  unfold Turn.of at h
  cases he : a.expr id with
  | error d =>
    rw [he] at h
    cases h
  | ok e =>
    simp only [he, bind, Except.bind] at h
    cases hopen : e.openBinary? with
    | none =>
      simp only [hopen] at h
      exact .inl (Except.ok.inj h).symm
    | some node =>
      simp only [hopen] at h
      rw [Expr.openBinary?_eq_some hopen]
      obtain hstay | ⟨lifted, hlifted⟩ := ofBinary_ok h
      · exact .inl hstay
      · exact .inr ⟨node, lifted, rfl, hlifted⟩

end Turn

namespace Workspace

variable {w w' : Workspace} {fuel : Nat} {id top : NodeId}

/-- What a turn does at `id`: the node there, which is `n`, gets the operands `l` and `r`, and when
it is settled the binary `m` at `top` takes what comes of it as one of its operands. -/
structure Lifts (w : Workspace) (id top : NodeId) (n m : OpenBinary) (l r : NodeId)
    (rejoin : NodeId → OpenBinary) : Prop where
  node : w.arena.expr id = .ok n.toExpr
  lifted : w.arena.expr top = .ok m.toExpr
  left : l ∈ [n.left, n.right, m.left, m.right]
  right : r ∈ [n.left, n.right, m.left, m.right]
  operator (settled : NodeId) : (rejoin settled).operator = m.operator
  rejoinLeft (settled : NodeId) : (rejoin settled).left ∈ [settled, m.left]
  rejoinRight (settled : NodeId) : (rejoin settled).right ∈ [settled, m.right]

/-- The workspace with a rotation recorded and new operands of a node. -/
def rotated (w : Workspace) (e : Event) (id : NodeId) (b : OpenBinary) : Workspace :=
  { w with events := w.events.push e, arena := w.arena.setExpr id b.toExpr }

/-- The workspace with new operands of a node. -/
def rejoined (w : Workspace) (id : NodeId) (b : OpenBinary) : Workspace :=
  { w with arena := w.arena.setExpr id b.toExpr }

theorem note_setBinary_run (e : Event) (id : NodeId) (b : OpenBinary) (w : Workspace)
    (x : Unit → Action Workspace Stop NodeId) :
    (note e >>= fun _ => setBinary id b >>= x) w = x () (w.rotated e id b) := rfl

/-- Settling changes nothing, or it takes a turn; which turn does not depend on the bound. -/
theorem settleN_cases (id : NodeId) (w : Workspace) :
    ((∃ d, ∀ fuel, settleN (fuel + 1) id w = (.error (.failed d), w)) ∨
        ∀ fuel, settleN (fuel + 1) id w = (.ok id, w)) ∨
      ∃ top node lifted l r rejoin e, w.Lifts id top node lifted l r rejoin ∧
        ∀ fuel, settleN (fuel + 1) id w =
          match settleN fuel id (w.rotated e id ⟨node.operator, l, r⟩) with
          | (.ok settled, w') => (.ok top, w'.rejoined top (rejoin settled))
          | (.error d, w') => (.error d, w') := by
  cases hturn : Turn.of w.arena w.operators id with
  | error d =>
    left
    left
    refine ⟨d, fun fuel => ?_⟩
    simp only [settleN, Action.bind_run, ask, hturn, Action.mapError_error]
  | ok turn =>
    obtain rfl | ⟨node, lifted, hnode, ⟨rfl, hlifted⟩ | ⟨rfl, hlifted⟩⟩ := Turn.of_ok hturn
    · left
      right
      intro fuel
      simp only [settleN, Action.bind_run, ask, hturn, Action.mapError_ok]
      rfl
    · right
      refine ⟨node.left, node, lifted, lifted.right, node.right,
        fun settled => ⟨lifted.operator, lifted.left, settled⟩,
        .rotating node.operator lifted.operator .left, ?_, fun fuel => ?_⟩
      · exact ⟨hnode, hlifted, by simp, by simp, fun _ => rfl, fun _ => by simp, fun _ => by simp⟩
      · rw [settleN, Action.bind_run, ask, hturn, Action.mapError_ok]
        dsimp only
        rw [note_setBinary_run, Action.bind_run]
        cases settleN fuel id _ with
        | mk result w' => cases result <;> rfl
    · right
      refine ⟨node.right, node, lifted, node.left, lifted.left,
        fun settled => ⟨lifted.operator, settled, lifted.right⟩,
        .rotating node.operator lifted.operator .right, ?_, fun fuel => ?_⟩
      · exact ⟨hnode, hlifted, by simp, by simp, fun _ => rfl, fun _ => by simp, fun _ => by simp⟩
      · rw [settleN, Action.bind_run, ask, hturn, Action.mapError_ok]
        dsimp only
        rw [note_setBinary_run, Action.bind_run]
        cases settleN fuel id _ with
        | mk result w' => cases result <;> rfl

/-- Settling keeps the operators and overwrites operands of binaries only; what it answers is the
node itself or a binary. -/
theorem settleN_follows (fuel : Nat) (id : NodeId) (w : Workspace) :
    (settleN fuel id w).2.operators = w.operators ∧
      w.arena.Follows (settleN fuel id w).2.arena ∧
      ∀ top, (settleN fuel id w).1 = .ok top →
        top = id ∨ ∃ b : OpenBinary, (settleN fuel id w).2.arena.expr top = .ok b.toExpr := by
  induction fuel generalizing id w with
  | zero => exact ⟨rfl, .refl _, fun _ h => nomatch h⟩
  | succ fuel ih =>
    obtain (⟨d, hrun⟩ | hrun) | ⟨top, node, lifted, l, r, rejoin, e, h, hrun⟩ :=
      settleN_cases id w
    · rw [hrun]
      exact ⟨rfl, .refl _, fun _ h => nomatch h⟩
    · rw [hrun]
      exact ⟨rfl, .refl _, fun top h => .inl (Except.ok.inj h).symm⟩
    · have hrotated : w.arena.Follows (w.rotated e id ⟨node.operator, l, r⟩).arena :=
        .setExpr h.node (.binary ..)
      obtain ⟨hoperators, hfollows, -⟩ := ih id (w.rotated e id ⟨node.operator, l, r⟩)
      rw [hrun]
      revert hoperators hfollows
      cases settleN fuel id (w.rotated e id ⟨node.operator, l, r⟩) with
      | mk result w' =>
        intro hoperators hfollows
        have hall := hrotated.trans hfollows
        cases result with
        | error d => exact ⟨hoperators, hall, fun _ h => nomatch h⟩
        | ok settled =>
          obtain ⟨e', he', halike⟩ := hall.expr h.lifted
          have hjoin : e'.Alike (rejoin settled).toExpr :=
            halike.symm.trans (.of_operator (h.operator settled))
          refine ⟨hoperators, hall.trans (.setExpr he' hjoin), fun _ htop => .inr ?_⟩
          cases htop
          exact ⟨_, Arena.expr_setExpr_self he' _⟩

theorem settle_follows (id : NodeId) (w : Workspace) :
    (settle id w).2.operators = w.operators ∧ w.arena.Follows (settle id w).2.arena ∧
      ∀ top, (settle id w).1 = .ok top →
        top = id ∨ ∃ b : OpenBinary, (settle id w).2.arena.expr top = .ok b.toExpr :=
  settleN_follows _ id w

end Workspace

end ApiSyntax
