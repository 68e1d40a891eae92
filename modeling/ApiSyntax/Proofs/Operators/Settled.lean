/-
  ApiSyntax/Proofs/Operators/Settled.lean --- groupings in which no operand binds looser.

  Where the left side is one operand, grafting leaves every operator with operands that do
  not bind looser, and with a left one that binds tighter; so a chain that is grouped from
  its end is settled, whatever the table says (`group_settled`).

  Between two groupings this fails.  The operator sinks below some operators on the right
  edge of the left side and below the one on top of the right side, and these two are never
  compared.  Grafting settles exactly when the second does not bind looser than the last of
  the first (`graft_settled_iff`).
-/
import ApiSyntax.Proofs.Operators.Grouping

set_option autoImplicit false

namespace ApiSyntax.Grouping

variable {table : OperatorTable} {P Q : Precedence → Prop} {j : Joint} {left right : Grouping}

/-! ## Settled groupings -/

/-- The operator on top, if there is one. -/
def top? : Grouping → Option String
  | operand _ => none
  | join j _ _ => some j.operator

/-- How an operator binds relative to the one on top of its left side satisfies `P`, and the one
on top of its right side does not bind looser than it; and so below. -/
def Settled (table : OperatorTable) (P : Precedence → Prop) : Grouping → Prop
  | operand _ => True
  | join j left right =>
      ((∀ x, left.top? = some x → P (table.precedence j.operator x)) ∧
        ∀ x, right.top? = some x → table.precedence x j.operator ≠ .lesser) ∧
      Settled table P left ∧ Settled table P right

/-! ## Sinking to the right -/

/-- On top stands the operator that was on top of the right side, if it binds looser, and else the
new one. -/
theorem top?_sinkRight {x : String} :
    (sinkRight table j left right).top? = some x ↔
      (right.top? = some x ∧ table.precedence x j.operator = .lesser) ∨
        (x = j.operator ∧ ∀ y, right.top? = some y → table.precedence y j.operator ≠ .lesser) := by
  cases right with
  | operand t =>
    constructor
    · rintro ⟨⟩
      exact .inr ⟨rfl, fun y hy => nomatch hy⟩
    · rintro (⟨⟨⟩, -⟩ | ⟨rfl, -⟩)
      rfl
  | join k inner outer =>
    rw [sinkRight]
    split
    · next hlesser =>
      constructor
      · rintro ⟨⟩
        exact .inl ⟨rfl, hlesser⟩
      · rintro (⟨hx, -⟩ | ⟨-, hnot⟩)
        · exact hx
        · exact absurd hlesser (hnot _ rfl)
    · next hnot =>
      constructor
      · rintro ⟨⟩
        refine .inr ⟨rfl, fun y hy => ?_⟩
        cases hy
        exact hnot
      · rintro (⟨hx, hlesser⟩ | ⟨rfl, -⟩)
        · cases hx
          exact absurd hlesser hnot
        · rfl

/-- An operator that sinks between two settled groupings leaves a settled one, when it stands well
over the left side: below, the left side is met by no other operator. -/
theorem sinkRight_settled (hP : P .lesser) (hleft : left.Settled table P)
    (hright : right.Settled table P)
    (hbound : ∀ x, left.top? = some x → P (table.precedence j.operator x)) :
    (sinkRight table j left right).Settled table P := by
  induction right with
  | operand t => exact ⟨⟨hbound, fun x hx => nomatch hx⟩, hleft, trivial⟩
  | join k inner outer ihInner _ =>
    obtain ⟨⟨hinnerTop, houterTop⟩, hinner, houter⟩ := hright
    rw [sinkRight]
    split
    · next hlesser =>
      refine ⟨⟨fun x hx => ?_, houterTop⟩, ihInner hinner, houter⟩
      rcases top?_sinkRight.mp hx with ⟨hx, -⟩ | ⟨rfl, -⟩
      · exact hinnerTop x hx
      · rwa [hlesser]
    · next hnot =>
      refine ⟨⟨hbound, fun x hx => ?_⟩, hleft, ⟨hinnerTop, houterTop⟩, hinner, houter⟩
      cases hx
      exact hnot

/-- A chain that is grouped from its end is settled, and each operator binds looser than the one
on top of its left side. -/
theorem group_settled (table : OperatorTable) (c : Chain) :
    (c.group table).Settled table (· = .lesser) := by
  induction c with
  | last operand => trivial
  | more operand j rest ih => exact sinkRight_settled rfl trivial ih fun x hx => nomatch hx

/-! ## Sinking to the left -/

/-- The operator below which `j` comes to stand when it sinks down the right edge. -/
def above? (table : OperatorTable) (j : Joint) : Grouping → Option String
  | operand _ => none
  | join lifted _ inner =>
      if table.precedence j.operator lifted.operator = .greater then
        some ((above? table j inner).getD lifted.operator)
      else none

/-- An operator that sinks below nothing binds no tighter than the one on top. -/
theorem not_greater_of_above?_eq_none (h : left.above? table j = none) :
    ∀ x, left.top? = some x → table.precedence j.operator x ≠ .greater := by
  intro x hx hgreater
  cases left with
  | operand t => cases hx
  | join lifted outer inner =>
    cases hx
    rw [above?, if_pos hgreater] at h
    cases h

/-- An operator that sinks below nothing on the left side only sinks to the right. -/
theorem sinkLeft_of_above?_eq_none (right : Grouping) (h : left.above? table j = none) :
    sinkLeft table j right left = sinkRight table j left right := by
  cases left with
  | operand t => rfl
  | join lifted outer inner =>
    rw [sinkLeft, if_neg (not_greater_of_above?_eq_none h _ rfl)]

/-- An operator that sinks below something on the left side leaves its top alone. -/
theorem top?_sinkLeft {m : String} (h : left.above? table j = some m) :
    (sinkLeft table j right left).top? = left.top? := by
  cases left with
  | operand t => cases h
  | join lifted outer inner =>
    by_cases hgreater : table.precedence j.operator lifted.operator = .greater
    · rw [sinkLeft, if_pos hgreater]
      rfl
    · rw [above?, if_neg hgreater] at h
      cases h

/-- What is left to show when an operator sinks below `lifted` on the left side. -/
theorem settled_sinkLeft_iff {lifted : Joint} {outer inner : Grouping}
    (hgreater : table.precedence j.operator lifted.operator = .greater)
    (hleft : (join lifted outer inner).Settled table P) :
    (sinkLeft table j right (join lifted outer inner)).Settled table P ↔
      (∀ x, (sinkLeft table j right inner).top? = some x →
        table.precedence x lifted.operator ≠ .lesser) ∧
      (sinkLeft table j right inner).Settled table P := by
  obtain ⟨⟨houterTop, -⟩, houter, -⟩ := hleft
  rw [sinkLeft, if_pos hgreater]
  exact ⟨fun h => ⟨h.1.2, h.2.2⟩, fun h => ⟨⟨houterTop, h.1⟩, houter, h.2⟩⟩

/-- Between two settled groupings an operator settles, unless the one on top of the right side is
lifted over it and binds looser than the one below which it sank on the left side. -/
theorem graft_settled_iff (hleft : left.Settled table (· ≠ .greater))
    (hright : right.Settled table (· ≠ .greater)) :
    (graft table j left right).Settled table (· ≠ .greater) ↔
      ∀ m k, left.above? table j = some m → right.top? = some k →
        table.precedence k j.operator = .lesser → table.precedence k m ≠ .lesser := by
  unfold graft
  have hlesser : Precedence.lesser ≠ .greater := by decide
  induction left with
  | operand t =>
    refine iff_of_true ?_ fun m k hm => nomatch hm
    exact sinkRight_settled hlesser trivial hright fun x hx => nomatch hx
  | join lifted outer inner _ ihInner =>
    have hinner : inner.Settled table (· ≠ .greater) := hleft.2.2
    by_cases hgreater : table.precedence j.operator lifted.operator = .greater
    · rw [settled_sinkLeft_iff hgreater hleft, above?, if_pos hgreater]
      cases hdeeper : inner.above? table j with
      | some n =>
        have hbelow := ihInner hinner
        rw [hdeeper] at hbelow
        rw [top?_sinkLeft hdeeper, Option.getD_some]
        exact (and_iff_right hleft.1.2).trans hbelow
      | none =>
        -- Below `lifted` stands the new operator, or the one from the top of the right side.
        have hbound := not_greater_of_above?_eq_none hdeeper
        rw [sinkLeft_of_above?_eq_none right hdeeper,
          and_iff_left (sinkRight_settled hlesser hinner hright hbound)]
        constructor
        · rintro htop m k ⟨⟩ hk hkj
          exact htop k (top?_sinkRight.mpr (.inl ⟨hk, hkj⟩))
        · intro h x hx
          rcases top?_sinkRight.mp hx with ⟨hx, hxj⟩ | ⟨rfl, -⟩
          · exact h _ x rfl hx hxj
          · rw [hgreater]
            decide
    · -- Nothing is sunk below, so the left side stays whole.
      have habove : above? table j (join lifted outer inner) = none := by
        rw [above?, if_neg hgreater]
      have hbound := not_greater_of_above?_eq_none habove
      rw [sinkLeft_of_above?_eq_none right habove, habove]
      exact iff_of_true (sinkRight_settled hlesser hleft hright hbound) fun m k hm => nomatch hm

end ApiSyntax.Grouping
