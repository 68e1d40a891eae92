/-
  ApiSyntax/Proofs/Operators/Binaries.lean --- binaries without parentheses in an arena.

  Below a handle the open binaries span a tree whose leaves are the operands.  `InOrder`
  lists it from left to right, and `Settled` says that none of its binaries has an operand
  that binds looser.  Both only look up handles.  Where the arena holds a tree, they agree
  with the grouping that the tree is.
-/
import ApiSyntax.Proofs.Arena.Ancestry
import ApiSyntax.Proofs.Arena.Follows
import ApiSyntax.Proofs.Operators.Settled
import ApiSyntax.Proofs.Operators.Settling

set_option autoImplicit false

namespace ApiSyntax

open ApiSyntax.Arena

/-! ## Open binaries -/

/-- The operator of the root, if the root is an open binary. -/
def Tree.operator? (t : Tree) : Option String := t.expr.openBinary?.map (·.operator)

/-- The open binary at a handle, if there is one. -/
def Arena.open? (a : Arena) (id : NodeId) : Option OpenBinary :=
  (a.node? id).bind fun n => n.expr.openBinary?

variable {a b : Arena} {t : Tree} {g left right : Grouping} {j : Joint} {table : OperatorTable}
  {P : Precedence → Prop}

theorem Arena.Shows.open?_eq (h : a.Shows t) : a.open? t.root = t.expr.openBinary? := by
  obtain ⟨tags, htags⟩ := h.found
  rw [Arena.open?, htags, Option.bind_some]

/-- A node that is an open binary has two children. -/
theorem Arena.Shows.children_of_open {node : OpenBinary} (h : a.Shows t)
    (hopen : t.expr.openBinary? = some node) :
    ∃ l r, t.children = [l, r] ∧ l.root = node.left ∧ r.root = node.right := by
  have hslots := h.slots
  rw [Expr.openBinary?_eq_some hopen] at hslots
  have hlength : t.children.length = 2 := by
    rw [← List.length_map (f := Tree.root), ← hslots]
    rfl
  obtain ⟨l, r, hchildren⟩ := List.length_eq_two.mp hlength
  rw [hchildren] at hslots
  injection hslots with hl hr
  injection hr with hr
  exact ⟨l, r, hchildren, hl.symm, hr.symm⟩

namespace Grouping

theorem top?_eq_map (g : Grouping) : g.top? = g.open?.map (·.operator) := by
  cases g <;> rfl

theorem operator?_tree (h : g.Closed) : g.tree.operator? = g.top? := by
  rw [Tree.operator?, openBinary?_tree h]
  cases g <;> rfl

theorem open?_root (h : a.Holds g.tree) (hclosed : g.Closed) : a.open? g.root = g.open? :=
  h.shows.open?_eq.trans (openBinary?_tree hclosed)

/-- A tree that an arena holds is a grouping: its open binaries are the operators. -/
theorem exists_of_holds (h : a.Holds t) : ∃ g : Grouping, g.tree = t ∧ g.Closed := by
  induction t with
  | node id token expr cs ih =>
    cases hopen : expr.openBinary? with
    | none =>
      refine ⟨.operand (.node id token expr cs), rfl, fun u hu => ?_⟩
      exact List.mem_singleton.mp hu ▸ hopen
    | some node =>
      obtain ⟨l, r, rfl, hl, hr⟩ := h.shows.children_of_open hopen
      obtain ⟨left, hleft, hlclosed⟩ := ih l (by simp) (h.child (by simp [Tree.children]))
      obtain ⟨right, hright, hrclosed⟩ := ih r (by simp) (h.child (by simp [Tree.children]))
      refine ⟨.join ⟨id, token, node.operator⟩ left right, ?_, closed_join.mpr ⟨hlclosed, hrclosed⟩⟩
      rw [tree, hleft, hright, hl, hr, Expr.openBinary?_eq_some hopen]
      rfl

end Grouping

/-! ## From left to right -/

/-- The handles below a handle, from left to right: through open binaries, down to the
operands. -/
inductive Arena.InOrder (a : Arena) : NodeId → List NodeId → Prop
  | operand {id : NodeId} {n : Node} (found : a.node? id = some n)
      (closed : n.expr.openBinary? = none) : InOrder a id [id]
  | binary {id : NodeId} {node : OpenBinary} {ls rs : List NodeId}
      (found : a.open? id = some node) (left : InOrder a node.left ls)
      (right : InOrder a node.right rs) : InOrder a id (ls ++ id :: rs)

theorem Arena.open?_of_closed {id : NodeId} {n : Node} (found : a.node? id = some n)
    (closed : n.expr.openBinary? = none) : a.open? id = none := by
  rw [Arena.open?, found, Option.bind_some, closed]

/-- A handle has one traversal. -/
theorem Arena.InOrder.unique {id : NodeId} {xs ys : List NodeId} (h : a.InOrder id xs)
    (h' : a.InOrder id ys) : xs = ys := by
  induction h generalizing ys with
  | operand found closed =>
    cases h' with
    | operand => rfl
    | binary found' => cases (open?_of_closed found closed).symm.trans found'
  | binary found _ _ ihLeft ihRight =>
    cases h' with
    | operand found' closed' => cases (open?_of_closed found' closed').symm.trans found
    | binary found' hleft hright =>
      cases found.symm.trans found'
      rw [ihLeft hleft, ihRight hright]

/-- The handles of the operands and operators, from left to right. -/
def Chain.ids : Chain → List NodeId
  | last operand => [operand.root]
  | more operand j rest => operand.root :: j.id :: rest.ids

theorem Chain.ids_append (c : Chain) (j : Joint) (d : Chain) :
    (c.append j d).ids = c.ids ++ j.id :: d.ids := by
  induction c with
  | last operand => rfl
  | more operand k rest ih => rw [append, ids, ids, ih, List.cons_append, List.cons_append]

/-- The traversal of a tree lists its chain. -/
theorem Grouping.inOrder (h : a.Holds g.tree) (hclosed : g.Closed) :
    a.InOrder g.root g.chain.ids := by
  induction g with
  | operand t =>
    obtain ⟨tags, htags⟩ := h.shows.found
    exact .operand htags (hclosed t List.mem_cons_self)
  | join j left right ihLeft ihRight =>
    have hopen : a.open? j.id = some ⟨j.operator, left.root, right.root⟩ := open?_root h hclosed
    obtain ⟨hlclosed, hrclosed⟩ := closed_join.mp hclosed
    rw [chain, Chain.ids_append]
    exact .binary hopen (ihLeft (h.child List.mem_cons_self) hlclosed)
      (ihRight (h.child (List.mem_cons_of_mem _ List.mem_cons_self)) hrclosed)

/-! ## Settled trees -/

/-- How the operator binds relative to that of an open left operand satisfies `P`, and that of an
open right operand does not bind looser. -/
structure Arena.SettledAt (a : Arena) (table : OperatorTable) (P : Precedence → Prop)
    (node : OpenBinary) : Prop where
  left : ∀ l, a.open? node.left = some l → P (table.precedence node.operator l.operator)
  right : ∀ r, a.open? node.right = some r → table.precedence r.operator node.operator ≠ .lesser

/-- All open binaries that can be reached from the handle are settled. -/
def Arena.Settled (a : Arena) (table : OperatorTable) (P : Precedence → Prop) (root : NodeId) :
    Prop :=
  ∀ id node, Relation.ReflTransGen a.Child root id → a.open? id = some node →
    a.SettledAt table P node

/-- The root of a tree, if it is an open binary, is settled over its operands. -/
def Tree.SettledAt (table : OperatorTable) (P : Precedence → Prop) (t : Tree) : Prop :=
  ∀ x l r, t.operator? = some x → t.children = [l, r] →
    (∀ y, l.operator? = some y → P (table.precedence x y)) ∧
      ∀ y, r.operator? = some y → table.precedence y x ≠ .lesser

/-- What can be reached from the root of a tree that is held is the root of a subtree. -/
theorem Arena.Holds.reach_iff (h : a.Holds t) {id : NodeId} :
    Relation.ReflTransGen a.Child t.root id ↔ ∃ u ∈ t.subtrees, u.root = id := by
  constructor
  · intro hreach
    induction hreach with
    | refl => exact ⟨t, t.self_mem_subtrees, rfl⟩
    | tail _ hchild ih =>
      obtain ⟨u, hu, rfl⟩ := ih
      obtain ⟨c, hc, rfl⟩ := (h u hu).child_iff.mp hchild
      exact ⟨c, Tree.mem_subtrees_trans (Tree.mem_subtrees_of_mem_children hc) hu, rfl⟩
  · rintro ⟨u, hu, rfl⟩
    induction t with
    | node id token expr cs ih =>
      rcases Tree.mem_subtrees.mp hu with rfl | ⟨c, hc, hu⟩
      · exact .refl
      · exact .head (h.shows.child_iff.mpr ⟨c, hc, rfl⟩) (ih c hc (h.child hc) hu)

/-- Where a tree is held, looking up its handles tells what the tree tells. -/
theorem Arena.Holds.settled_iff (h : a.Holds t) :
    a.Settled table P t.root ↔ ∀ u ∈ t.subtrees, u.SettledAt table P := by
  have hlook : ∀ u ∈ t.subtrees, ∀ c ∈ u.children, a.open? c.root = c.expr.openBinary? :=
    fun u hu c hc => ((h.subtree hu).child hc).shows.open?_eq
  constructor
  · intro hsettled u hu x l r hx hchildren
    obtain ⟨node, hopen, rfl⟩ := Option.map_eq_some_iff.mp hx
    have hl : a.open? l.root = l.expr.openBinary? := hlook u hu l (by simp [hchildren])
    have hr : a.open? r.root = r.expr.openBinary? := hlook u hu r (by simp [hchildren])
    obtain ⟨l', r', hchildren', hlroot, hrroot⟩ := (h u hu).children_of_open hopen
    rw [hchildren] at hchildren'
    cases hchildren'
    have hat := hsettled u.root node (h.reach_iff.mpr ⟨u, hu, rfl⟩) ((h u hu).open?_eq.trans hopen)
    constructor
    · intro y hy
      obtain ⟨m, hm, rfl⟩ := Option.map_eq_some_iff.mp hy
      exact hat.left m (hlroot ▸ hl.trans hm)
    · intro y hy
      obtain ⟨m, hm, rfl⟩ := Option.map_eq_some_iff.mp hy
      exact hat.right m (hrroot ▸ hr.trans hm)
  · intro hsettled id node hreach hopen
    obtain ⟨u, hu, rfl⟩ := h.reach_iff.mp hreach
    rw [(h u hu).open?_eq] at hopen
    obtain ⟨l, r, hchildren, hl, hr⟩ := (h u hu).children_of_open hopen
    obtain ⟨hleft, hright⟩ := hsettled u hu node.operator l r
      (Option.map_eq_some_iff.mpr ⟨node, hopen, rfl⟩) hchildren
    constructor
    · intro m hm
      rw [← hl, hlook u hu l (by simp [hchildren])] at hm
      exact hleft m.operator (Option.map_eq_some_iff.mpr ⟨m, hm, rfl⟩)
    · intro m hm
      rw [← hr, hlook u hu r (by simp [hchildren])] at hm
      exact hright m.operator (Option.map_eq_some_iff.mpr ⟨m, hm, rfl⟩)

namespace Grouping

theorem forall_subtrees_join {Q : Tree → Prop} :
    (∀ u ∈ (join j left right).tree.subtrees, Q u) ↔
      Q (join j left right).tree ∧ (∀ u ∈ left.tree.subtrees, Q u) ∧
        ∀ u ∈ right.tree.subtrees, Q u := by
  rw [tree, Tree.subtrees_node]
  simp only [List.flatMap_cons, List.flatMap_nil, List.append_nil, List.forall_mem_cons,
    List.forall_mem_append]

theorem settledAt_join (h : (join j left right).Closed) :
    (join j left right).tree.SettledAt table P ↔
      (∀ x, left.top? = some x → P (table.precedence j.operator x)) ∧
        ∀ x, right.top? = some x → table.precedence x j.operator ≠ .lesser := by
  obtain ⟨hlclosed, hrclosed⟩ := closed_join.mp h
  rw [← operator?_tree hlclosed, ← operator?_tree hrclosed]
  constructor
  · intro hat
    exact hat j.operator left.tree right.tree rfl rfl
  · rintro hat x l r hx hchildren
    cases hx
    cases hchildren
    exact hat

/-- A grouping is settled in all its parts when its operators are and its operands are. -/
theorem forall_settledAt (h : g.Closed) :
    (∀ u ∈ g.tree.subtrees, u.SettledAt table P) ↔
      g.Settled table P ∧ ∀ t ∈ g.chain.operands, ∀ u ∈ t.subtrees, u.SettledAt table P := by
  induction g with
  | operand t =>
    simp only [tree, chain, Chain.operands, List.mem_singleton, forall_eq, Settled, true_and]
  | join j left right ihLeft ihRight =>
    obtain ⟨hlclosed, hrclosed⟩ := closed_join.mp h
    rw [forall_subtrees_join, settledAt_join h, ihLeft hlclosed, ihRight hrclosed, chain,
      Chain.operands_append, List.forall_mem_append, Settled]
    constructor
    · rintro ⟨htop, ⟨hleft, hlops⟩, hright, hrops⟩
      exact ⟨⟨htop, hleft, hright⟩, hlops, hrops⟩
    · rintro ⟨⟨htop, hleft, hright⟩, hlops, hrops⟩
      exact ⟨htop, ⟨hleft, hlops⟩, hright, hrops⟩

end Grouping

/-! ## Sinking below a right edge -/

/-- Down the right operands from a handle an operator binds tighter than each binary, and `m` is
the operator of the last of these. -/
inductive Arena.SinksBelow (a : Arena) (table : OperatorTable) (op : String) :
    NodeId → String → Prop
  | last {id : NodeId} {node : OpenBinary} (found : a.open? id = some node)
      (tighter : table.precedence op node.operator = .greater)
      (stops : ∀ inner, a.open? node.right = some inner →
        table.precedence op inner.operator ≠ .greater) : SinksBelow a table op id node.operator
  | deeper {id : NodeId} {node : OpenBinary} {m : String} (found : a.open? id = some node)
      (tighter : table.precedence op node.operator = .greater)
      (rest : SinksBelow a table op node.right m) : SinksBelow a table op id m

/-- Where a tree is held, looking up its handles tells below which operator one sinks. -/
theorem Grouping.sinksBelow_iff (h : a.Holds g.tree) (hclosed : g.Closed) {m : String} :
    a.SinksBelow table j.operator g.root m ↔ g.above? table j = some m := by
  induction g generalizing m with
  | operand t =>
    have hnone : a.open? t.root = none := open?_root h hclosed
    refine iff_of_false ?_ (by rintro ⟨⟩)
    rintro (⟨found, -, -⟩ | ⟨found, -, -⟩)
    · cases hnone.symm.trans found
    · cases hnone.symm.trans found
  | join lifted outer inner _ ihInner =>
    have hopen : a.open? lifted.id = some ⟨lifted.operator, outer.root, inner.root⟩ :=
      open?_root h hclosed
    have hheld : a.Holds inner.tree := h.child (List.mem_cons_of_mem _ List.mem_cons_self)
    have hinner : inner.Closed := (closed_join.mp hclosed).2
    have hstops : a.open? inner.root = inner.open? := open?_root hheld hinner
    by_cases htighter : table.precedence j.operator lifted.operator = .greater
    · rw [above?, if_pos htighter]
      cases hdeeper : inner.above? table j with
      | none =>
        rw [Option.getD_none]
        constructor
        · rintro (⟨found, -, -⟩ | ⟨found, -, rest⟩)
          · cases hopen.symm.trans found
            rfl
          · cases hopen.symm.trans found
            cases hdeeper.symm.trans ((ihInner hheld hinner).mp rest)
        · rintro ⟨⟩
          refine .last hopen htighter fun node hnode => ?_
          rw [hstops] at hnode
          cases inner with
          | operand t => cases hnode
          | join k _ _ =>
            cases hnode
            exact not_greater_of_above?_eq_none hdeeper _ rfl
      | some n =>
        rw [Option.getD_some]
        have hbelow := (ihInner hheld hinner).mpr hdeeper
        constructor
        · rintro (⟨found, -, stops⟩ | ⟨found, -, rest⟩)
          · cases hopen.symm.trans found
            cases hbelow with
            | last found' tighter => exact absurd tighter (stops _ found')
            | deeper found' tighter => exact absurd tighter (stops _ found')
          · cases hopen.symm.trans found
            exact hdeeper.symm.trans ((ihInner hheld hinner).mp rest)
        · rintro ⟨⟩
          exact .deeper hopen htighter hbelow
    · rw [above?, if_neg htighter]
      refine iff_of_false ?_ (by rintro ⟨⟩)
      rintro (⟨found, tighter, -⟩ | ⟨found, tighter, -⟩)
      · cases hopen.symm.trans found
        exact htighter tighter
      · cases hopen.symm.trans found
        exact htighter tighter

end ApiSyntax
