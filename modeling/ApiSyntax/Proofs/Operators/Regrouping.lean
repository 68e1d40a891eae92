/-
  ApiSyntax/Proofs/Operators/Regrouping.lean --- a part of a chain, grouped by itself.

  Which groupings come from chains can be told from the groupings: each operator binds
  looser than every operator to the left of it and below it, and the one on top of its right
  side does not bind looser than it (`resolved_iff`).  The table need not be transitive.

  When a part of a grouping is closed to an operand, fewer operators are left to compare.
  So the part is what its own operands and operators are grouped as, and the rest is
  grouped around it as before (`Resolved.part`, `Resolved.close`).
-/
import ApiSyntax.Proofs.Operators.Settled

set_option autoImplicit false

namespace ApiSyntax

namespace Grouping

variable {table : OperatorTable} {j : Joint} {left right g : Grouping}

/-! ## The groupings of chains -/

/-- Each operator binds looser than every operator on its left side, and the one on top of its
right side does not bind looser than it. -/
def Resolved (table : OperatorTable) : Grouping → Prop
  | operand _ => True
  | join j left right =>
      ((∀ x ∈ left.chain.operators, table.precedence j.operator x = .lesser) ∧
        ∀ x, right.top? = some x → table.precedence x j.operator ≠ .lesser) ∧
      Resolved table left ∧ Resolved table right

/-- An operator stays on top when the one on top of its right side does not bind looser. -/
theorem sinkRight_of_top (h : ∀ x, right.top? = some x → table.precedence x j.operator ≠ .lesser) :
    sinkRight table j left right = join j left right := by
  cases right with
  | operand t => rfl
  | join k inner outer => rw [sinkRight, if_neg (h k.operator rfl)]

theorem sinkRight_resolved (t : Tree) (h : g.Resolved table) :
    (sinkRight table j (operand t) g).Resolved table := by
  have hnone : ∀ x ∈ (operand t).chain.operators, table.precedence j.operator x = .lesser :=
    fun x hx => absurd hx List.not_mem_nil
  induction g with
  | operand u => exact ⟨⟨hnone, fun x hx => nomatch hx⟩, trivial, trivial⟩
  | join k inner outer ihInner _ =>
    obtain ⟨⟨hlooser, htop⟩, hinner, houter⟩ := h
    rw [sinkRight]
    split
    · next hlesser =>
      refine ⟨⟨fun x hx => ?_, htop⟩, ihInner hinner, houter⟩
      rw [chain_sinkRight, Chain.operators_append] at hx
      rcases List.mem_cons.mp hx with rfl | hx
      · exact hlesser
      · exact hlooser x hx
    · next hnot =>
      refine ⟨⟨hnone, fun x hx => ?_⟩, trivial, ⟨hlooser, htop⟩, hinner, houter⟩
      cases hx
      exact hnot

theorem group_resolved (table : OperatorTable) (c : Chain) : (c.group table).Resolved table := by
  induction c with
  | last operand => trivial
  | more operand j rest ih => exact sinkRight_resolved operand ih

/-- Operators that all bind tighter than `j` are grouped to the left of it. -/
theorem group_append {c d : Chain}
    (hc : ∀ x ∈ c.operators, table.precedence j.operator x = .lesser)
    (htop : ∀ x, (d.group table).top? = some x → table.precedence x j.operator ≠ .lesser) :
    (c.append j d).group table = join j (c.group table) (d.group table) := by
  induction c with
  | last operand => exact sinkRight_of_top htop
  | more operand k rest ih =>
    have hrest := ih fun x hx => hc x (List.mem_cons_of_mem _ hx)
    have hlesser : table.precedence j.operator k.operator = .lesser :=
      hc k.operator List.mem_cons_self
    rw [Chain.append, Chain.group, hrest, graft, sinkLeft, sinkRight, if_pos hlesser]
    rfl

/-- A grouping comes from a chain exactly when it is resolved, and then from its own one. -/
theorem resolved_iff : g.Resolved table ↔ g.chain.group table = g := by
  constructor
  · intro h
    induction g with
    | operand t => rfl
    | join j left right ihLeft ihRight =>
      obtain ⟨⟨hlooser, htop⟩, hleft, hright⟩ := h
      rw [← ihRight hright] at htop
      rw [chain, group_append hlooser htop, ihLeft hleft, ihRight hright]
  · intro h
    rw [← h]
    exact group_resolved table g.chain

end Grouping

/-! ## Parts of a grouping -/

/-- A grouping with a part left out. -/
inductive Context
  | here
  | inLeft (joint : Joint) (context : Context) (right : Grouping)
  | inRight (left : Grouping) (joint : Joint) (context : Context)

namespace Context

/-- The grouping with the part put in. -/
def fill : Context → Grouping → Grouping
  | here, g => g
  | inLeft j ctx right, g => .join j (ctx.fill g) right
  | inRight left j ctx, g => .join j left (ctx.fill g)

variable {table : OperatorTable} {ctx : Context} {g : Grouping}

theorem operators_fill_subset {h : Grouping} (hsub : h.chain.operators ⊆ g.chain.operators) :
    (ctx.fill h).chain.operators ⊆ (ctx.fill g).chain.operators := by
  induction ctx with
  | here => exact hsub
  | inLeft j ctx right ih =>
    intro x hx
    simp only [fill, Grouping.chain, Chain.operators_append, List.mem_append] at hx ⊢
    exact hx.imp_left fun hx => ih hx
  | inRight left j ctx ih =>
    intro x hx
    simp only [fill, Grouping.chain, Chain.operators_append, List.mem_append,
      List.mem_cons] at hx ⊢
    exact hx.imp_right fun hx => hx.imp_right fun hx => ih hx

/-- Whether an operand or a grouping is put in, no other operator comes to the top. -/
theorem top?_fill_operand {t : Tree} {x : String} (h : (ctx.fill (.operand t)).top? = some x) :
    (ctx.fill g).top? = some x := by
  cases ctx with
  | here => cases h
  | inLeft j ctx right => exact h
  | inRight left j ctx => exact h

end Context

namespace Grouping.Resolved

variable {table : OperatorTable} {ctx : Context} {g : Grouping}

/-- A part of the grouping of a chain is the grouping of a chain. -/
theorem part (h : (ctx.fill g).Resolved table) : g.Resolved table := by
  induction ctx with
  | here => exact h
  | inLeft j ctx right ih => exact ih h.2.1
  | inRight left j ctx ih => exact ih h.2.2

/-- Where a part of the grouping of a chain becomes an operand, the rest is the grouping of a
chain. -/
theorem close (h : (ctx.fill g).Resolved table) (t : Tree) :
    (ctx.fill (.operand t)).Resolved table := by
  induction ctx with
  | here => trivial
  | inLeft j ctx right ih =>
    obtain ⟨⟨hlooser, htop⟩, hleft, hright⟩ := h
    have hfewer : (ctx.fill (.operand t)).chain.operators ⊆ (ctx.fill g).chain.operators :=
      Context.operators_fill_subset (List.nil_subset _)
    exact ⟨⟨fun x hx => hlooser x (hfewer hx), htop⟩, ih hleft, hright⟩
  | inRight left j ctx ih =>
    obtain ⟨⟨hlooser, htop⟩, hleft, hright⟩ := h
    exact ⟨⟨hlooser, fun x hx => htop x (Context.top?_fill_operand hx)⟩, hleft, ih hright⟩

end Grouping.Resolved

end ApiSyntax
