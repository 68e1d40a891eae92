/-
  ApiSyntax/Proofs/Operators/Grouping.lean --- grouping a chain of operands.

  A `Chain` is what a text says: operands with infix operators between them.  A
  `Grouping` is a binary tree over such a chain.  `Chain.group` groups a chain from its
  end, grafting one operand and operator at a time onto the grouping of the rest; grafting
  looks at pairs of neighbouring operators only.

  Main statement: where the pairs of a table agree with a rank of the operators, the
  outcome is the grouping that ranks alone would give (`group_isRanked`): the leftmost
  operator of smallest rank is on top, and both sides are grouped in the same way.
-/
import ApiSyntax.Operators.Rotation
import ApiSyntax.Proofs.Arena.Tree
import Mathlib.Order.Lattice

set_option autoImplicit false

namespace ApiSyntax

/-! ## Chains -/

/-- An infix operator between two operands: the node that stands for it, its token, and its
symbol. -/
structure Joint where
  id : NodeId
  token : Token
  operator : String

/-- Operands with infix operators between them. -/
inductive Chain
  | last (operand : Tree)
  | more (operand : Tree) (joint : Joint) (rest : Chain)

namespace Chain

/-- Two chains with an operator between them. -/
def append : Chain → Joint → Chain → Chain
  | last operand, j, c => more operand j c
  | more operand k rest, j, c => more operand k (rest.append j c)

/-- The symbols of the operators, from left to right. -/
def operators : Chain → List String
  | last _ => []
  | more _ j rest => j.operator :: rest.operators

/-- The operands, from left to right. -/
def operands : Chain → List Tree
  | last operand => [operand]
  | more operand _ rest => operand :: rest.operands

theorem operators_append (a : Chain) (j : Joint) (b : Chain) :
    (a.append j b).operators = a.operators ++ j.operator :: b.operators := by
  induction a with
  | last operand => rfl
  | more operand k rest ih => rw [append, operators, operators, ih, List.cons_append]

theorem operands_append (a : Chain) (j : Joint) (b : Chain) :
    (a.append j b).operands = a.operands ++ b.operands := by
  induction a with
  | last operand => rfl
  | more operand k rest ih => rw [append, operands, operands, ih, List.cons_append]

theorem append_assoc (a : Chain) (j : Joint) (b : Chain) (k : Joint) (c : Chain) :
    (a.append j b).append k c = a.append j (b.append k c) := by
  induction a with
  | last operand => rfl
  | more operand i rest ih => rw [append, append, append, ih]

end Chain

/-! ## Groupings -/

/-- A chain whose operators are grouped: a binary tree with the operands at its leaves. -/
inductive Grouping
  | operand (t : Tree)
  | join (joint : Joint) (left right : Grouping)

namespace Grouping

/-- The chain that is grouped. -/
def chain : Grouping → Chain
  | operand t => .last t
  | join j left right => left.chain.append j right.chain

/-- The syntax tree: each operator is a binary node without parentheses. -/
def tree : Grouping → Tree
  | operand t => t
  | join j left right =>
      .node j.id j.token (.binary j.operator left.tree.root right.tree.root false)
        [left.tree, right.tree]

/-- The handle of the syntax tree. -/
def root (g : Grouping) : NodeId := g.tree.root

/-! ## Grafting -/

/-- The operator `j` comes between `left` and a grouping on its right, below those operators on
the left edge of that grouping that bind looser. -/
def sinkRight (table : OperatorTable) (j : Joint) (left : Grouping) : Grouping → Grouping
  | operand t => join j left (operand t)
  | join lifted inner outer =>
      if table.precedence lifted.operator j.operator = .lesser then
        join lifted (sinkRight table j left inner) outer
      else join j left (join lifted inner outer)

/-- The operator `j` comes between a grouping on its left and `right`, below those operators on
the right edge of the left one that it binds tighter than. -/
def sinkLeft (table : OperatorTable) (j : Joint) (right : Grouping) : Grouping → Grouping
  | operand t => sinkRight table j (operand t) right
  | join lifted outer inner =>
      if table.precedence j.operator lifted.operator = .greater then
        join lifted outer (sinkLeft table j right inner)
      else sinkRight table j (join lifted outer inner) right

/-- The operator `j` comes between two groupings. -/
def graft (table : OperatorTable) (j : Joint) (left right : Grouping) : Grouping :=
  sinkLeft table j right left

theorem chain_sinkRight (table : OperatorTable) (j : Joint) (left right : Grouping) :
    (sinkRight table j left right).chain = left.chain.append j right.chain := by
  induction right with
  | operand t => rfl
  | join lifted inner outer ihInner _ =>
    rw [sinkRight]
    split
    · rw [chain, ihInner, chain, Chain.append_assoc]
    · rfl

/-- Grafting regroups operands and operators, and keeps their order. -/
theorem chain_graft (table : OperatorTable) (j : Joint) (left right : Grouping) :
    (graft table j left right).chain = left.chain.append j right.chain := by
  unfold graft
  induction left with
  | operand t => exact chain_sinkRight table j (operand t) right
  | join lifted outer inner _ ihInner =>
    rw [sinkLeft]
    split
    · rw [chain, ihInner, chain, Chain.append_assoc]
    · exact chain_sinkRight table j (join lifted outer inner) right

end Grouping

/-- The grouping of a chain, made from its end. -/
def Chain.group (table : OperatorTable) : Chain → Grouping
  | .last operand => .operand operand
  | .more operand j rest => Grouping.graft table j (.operand operand) (rest.group table)

theorem chain_group (table : OperatorTable) (c : Chain) : (c.group table).chain = c := by
  induction c with
  | last operand => rfl
  | more operand j rest ih =>
    rw [Chain.group, Grouping.chain_graft, ih]
    rfl

/-! ## Grouping by rank -/

section Rank

variable {ρ : Type} [LinearOrder ρ]

/-- The table says about each pair of the operators what their ranks say. -/
def OperatorTable.RankedBy (table : OperatorTable) (rank : String → ρ)
    (operators : List String) : Prop :=
  ∀ x ∈ operators, ∀ y ∈ operators,
    (table.precedence x y = .greater ↔ rank y < rank x) ∧
      (table.precedence x y = .equal ↔ rank x = rank y) ∧
      (table.precedence x y = .lesser ↔ rank x < rank y)

/-- The grouping of a chain that ranks alone give: on top is the leftmost operator of smallest
rank, and the parts before and behind it are grouped in the same way. -/
inductive Grouping.IsRanked (rank : String → ρ) : Chain → Grouping → Prop
  | operand (t : Tree) : IsRanked rank (.last t) (.operand t)
  | join {before after : Chain} {left right : Grouping} {j : Joint}
      (leftmost : ∀ x ∈ before.operators, rank j.operator < rank x)
      (smallest : ∀ x ∈ after.operators, rank j.operator ≤ rank x)
      (hleft : IsRanked rank before left) (hright : IsRanked rank after right) :
      IsRanked rank (before.append j after) (.join j left right)

/-- One operand and operator are grafted onto a grouping by rank. -/
theorem sinkRight_isRanked {table : OperatorTable} {rank : String → ρ} {c : Chain}
    {g : Grouping} (h : g.IsRanked rank c) {operand : Tree} {j : Joint}
    (hranked : table.RankedBy rank (j.operator :: c.operators)) :
    (Grouping.sinkRight table j (.operand operand) g).IsRanked rank (.more operand j c) := by
  induction h with
  | operand t =>
    have hnone : ∀ x ∈ (Chain.last operand).operators, rank j.operator < rank x :=
      fun x hx => absurd hx List.not_mem_nil
    have hnone' : ∀ x ∈ (Chain.last t).operators, rank j.operator ≤ rank x :=
      fun x hx => absurd hx List.not_mem_nil
    exact .join hnone hnone' (.operand operand) (.operand t)
  | @join before after left right k leftmost smallest hleft hright ihLeft _ =>
    rw [Chain.operators_append] at hranked
    have hk : k.operator ∈ j.operator :: (before.operators ++ k.operator :: after.operators) := by
      simp
    have hpair := (hranked k.operator hk j.operator List.mem_cons_self).2.2
    rw [Grouping.sinkRight]
    split
    · next hlesser =>
      have hbefore : table.RankedBy rank (j.operator :: before.operators) := by
        intro x hx y hy
        refine hranked x ?_ y ?_
        · exact List.cons_subset_cons _ (List.subset_append_left _ _) hx
        · exact List.cons_subset_cons _ (List.subset_append_left _ _) hy
      -- `k` stays on top: the new operator stands to the left of it and binds tighter.
      have hleftmost : ∀ x ∈ (Chain.more operand j before).operators, rank k.operator < rank x := by
        intro x hx
        rcases List.mem_cons.mp hx with rfl | hx
        · exact hpair.mp hlesser
        · exact leftmost x hx
      exact .join hleftmost smallest (ihLeft hbefore) hright
    · next hnot =>
      have hle : rank j.operator ≤ rank k.operator := not_lt.mp fun hlt => hnot (hpair.mpr hlt)
      have hsmallest : ∀ x ∈ (before.append k after).operators, rank j.operator ≤ rank x := by
        intro x hx
        rw [Chain.operators_append, List.mem_append, List.mem_cons] at hx
        rcases hx with hx | rfl | hx
        · exact le_trans hle (le_of_lt (leftmost x hx))
        · exact hle
        · exact le_trans hle (smallest x hx)
      have hnone : ∀ x ∈ (Chain.last operand).operators, rank j.operator < rank x :=
        fun x hx => absurd hx List.not_mem_nil
      exact .join hnone hsmallest (.operand operand) (.join leftmost smallest hleft hright)

/-- Where a table agrees with ranks, chains are grouped by rank. -/
theorem group_isRanked {table : OperatorTable} {rank : String → ρ} {c : Chain}
    (hranked : table.RankedBy rank c.operators) : (c.group table).IsRanked rank c := by
  induction c with
  | last operand => exact .operand operand
  | more operand j rest ih =>
    have hrest : table.RankedBy rank rest.operators := fun x hx y hy =>
      hranked x (List.mem_cons_of_mem _ hx) y (List.mem_cons_of_mem _ hy)
    exact sinkRight_isRanked (ih hrest) hranked

/-- Only one split of a chain has a leftmost operator of smallest rank. -/
theorem split_unique {rank : String → ρ} {before before' after after' : Chain} {j j' : Joint}
    (hleftmost : ∀ x ∈ before.operators, rank j.operator < rank x)
    (hsmallest : ∀ x ∈ after.operators, rank j.operator ≤ rank x)
    (hleftmost' : ∀ x ∈ before'.operators, rank j'.operator < rank x)
    (hsmallest' : ∀ x ∈ after'.operators, rank j'.operator ≤ rank x)
    (heq : before.append j after = before'.append j' after') :
    before = before' ∧ j = j' ∧ after = after' := by
  induction before generalizing before' with
  | last operand =>
    cases before' with
    | last operand' =>
      obtain ⟨rfl, rfl, rfl⟩ := Chain.more.inj heq
      exact ⟨rfl, rfl, rfl⟩
    | more operand' k rest =>
      -- `k` is `j`, and behind it stands `j'`, which binds looser.
      obtain ⟨rfl, rfl, rfl⟩ := Chain.more.inj heq
      have hlt := hleftmost' j.operator List.mem_cons_self
      have hmem : j'.operator ∈ (rest.append j' after').operators := by
        rw [Chain.operators_append]
        exact List.mem_append_right _ List.mem_cons_self
      exact absurd hlt (not_lt.mpr (hsmallest _ hmem))
  | more operand k rest ih =>
    cases before' with
    | last operand' =>
      obtain ⟨rfl, rfl, rfl⟩ := Chain.more.inj heq
      have hlt := hleftmost k.operator List.mem_cons_self
      have hmem : j.operator ∈ (rest.append j after).operators := by
        rw [Chain.operators_append]
        exact List.mem_append_right _ List.mem_cons_self
      exact absurd hlt (not_lt.mpr (hsmallest' _ hmem))
    | more operand' k' rest' =>
      obtain ⟨rfl, rfl, hrest⟩ := Chain.more.inj heq
      obtain ⟨rfl, rfl, rfl⟩ := ih (fun x hx => hleftmost x (List.mem_cons_of_mem _ hx))
        (fun x hx => hleftmost' x (List.mem_cons_of_mem _ hx)) hrest
      exact ⟨rfl, rfl, rfl⟩

theorem Chain.append_ne_last (a : Chain) (j : Joint) (b : Chain) (t : Tree) :
    a.append j b ≠ .last t := by
  intro h
  cases a <;> cases h

/-- Ranks leave one grouping. -/
theorem Grouping.IsRanked.unique {rank : String → ρ} {c c' : Chain} {g g' : Grouping}
    (h : g.IsRanked rank c) (h' : g'.IsRanked rank c') (heq : c = c') : g = g' := by
  induction h generalizing c' g' with
  | operand t =>
    cases h' with
    | operand t' =>
      cases heq
      rfl
    | join => exact absurd heq.symm (Chain.append_ne_last _ _ _ _)
  | join leftmost smallest hleft hright ihLeft ihRight =>
    cases h' with
    | operand t' => exact absurd heq (Chain.append_ne_last _ _ _ _)
    | join leftmost' smallest' hleft' hright' =>
      obtain ⟨rfl, rfl, rfl⟩ := split_unique leftmost smallest leftmost' smallest' heq
      rw [ihLeft hleft' rfl, ihRight hright' rfl]

end Rank

end ApiSyntax
