/-
  ApiSyntax/Proofs/Grammar/Goals.lean --- what a whole run comes to.

  Main statements: an expression is grouped as the ranks of its operators say, if there
  are such ranks (`expression_isRanked`); and whatever a run reads and however it ends,
  the arena that it leaves is a forest (`parse_isForest`).
-/
import ApiSyntax.Proofs.Arena.Ancestry
import ApiSyntax.Proofs.Grammar.AnnotationSound
import ApiSyntax.Reading

set_option autoImplicit false

namespace ApiSyntax

open ApiSyntax.Arena ApiSyntax.Grammar ApiSyntax.Language

variable {env : ParserEnv}

/-! ## Expressions -/

theorem fixed_fits (s : ParserState) : (Setting.fixed s.work.operators).Fits s :=
  ⟨rfl, fun _ _ => trivial⟩

/-- The outcome of reading an expression, on the operators at its start. -/
theorem expression_outcome (env : ParserEnv) (s : ParserState) :
    Outcome (.fixed s.work.operators) s (One (Expression env s.work.operators))
      (Production.expression.parse env s) :=
  readN_expression_reads (fun _ htable => htable) _ s (fixed_fits s)

/-- An expression is read as a grouping of the operands and operators that stand in the text.  If
the operators have ranks that agree with the table, it is the one grouping that the ranks give:
the leftmost operator of smallest rank is on top, and both sides are grouped in the same way. -/
theorem expression_isRanked {s s' : ParserState} {id : NodeId}
    (hrun : Production.expression.parse env s = (.ok id, s')) :
    ∃ (seg : List Token) (g : Grouping), s.cursor.rest = seg ++ s'.cursor.rest ∧
      Chained s.work.operators (Operand env s.work.operators) seg g.chain ∧
      g.root = id ∧ s'.work.arena.Holds g.tree ∧
      ∀ (ρ : Type) [LinearOrder ρ] (rank : String → ρ),
        s.work.operators.RankedBy rank g.chain.operators →
          g.IsRanked rank g.chain ∧ ∀ g', g'.IsRanked rank g.chain → g' = g := by
  have hread := expression_outcome env s
  rw [hrun] at hread
  obtain ⟨seg, ts, step, t, rfl, rfl, ht⟩ := hread.of_ok
  cases ht with
  | @mk seg c hchain =>
    refine ⟨seg, c.group s.work.operators, step.passes.ahead, ?_, rfl,
      step.arena.holds List.mem_cons_self, ?_⟩
    · rwa [chain_group]
    · intro ρ _ rank hranked
      rw [chain_group] at hranked ⊢
      have hgroup := group_isRanked hranked
      exact ⟨hgroup, fun g' hg' => hg'.unique hgroup rfl⟩

/-- The tokens of `a * b + c`. -/
def sumOfProduct : List Token :=
  [⟨.identifier, "a", .start⟩, ⟨.operator, "*", .start⟩, ⟨.identifier, "b", .start⟩,
    ⟨.operator, "+", .start⟩, ⟨.identifier, "c", .start⟩]

theorem expression_isRanked_sumOfProduct :
    ∃ (id : NodeId) (s' : ParserState) (g : Grouping),
      Production.expression.parse .standard (.start sumOfProduct .builtin) = (.ok id, s') ∧
        s'.cursor.rest = [] ∧ g.root = id ∧ s'.work.arena.Holds g.tree ∧
        g.IsRanked (fun x => if x = "*" then 1 else 0) g.chain := by
  obtain ⟨id, s', hrun⟩ := Outcome.exists_ok
    (by decide +kernel : (Production.expression.parse .standard
      (.start sumOfProduct .builtin)).1.toOption.isSome = true)
  have hrest : s'.cursor.rest = [] := by
    have hend : (Production.expression.parse .standard
        (.start sumOfProduct .builtin)).2.cursor.rest.isEmpty = true := by decide +kernel
    rw [hrun] at hend
    exact List.isEmpty_iff.mp hend
  obtain ⟨seg, g, hsplit, hchain, hroot, hholds, hranks⟩ := expression_isRanked hrun
  refine ⟨id, s', g, hrun, hrest, hroot, hholds, (hranks Nat _ ?_).1⟩
  have hseg : seg = sumOfProduct := by
    rw [hrest, List.append_nil] at hsplit
    exact hsplit.symm
  have hops : ∀ x ∈ g.chain.operators, x = "*" ∨ x = "+" := by
    intro x hx
    obtain ⟨t, ht, hop, rfl⟩ := hchain.mem_operators x hx
    rw [hseg] at ht
    simp only [sumOfProduct, List.mem_cons, List.not_mem_nil, or_false] at ht
    rcases ht with rfl | rfl | rfl | rfl | rfl
    · cases hop
    · exact .inl rfl
    · cases hop
    · exact .inr rfl
    · cases hop
  intro x hx y hy
  rcases hops x hx with rfl | rfl
  · rcases hops y hy with rfl | rfl
    · decide
    · decide
  · rcases hops y hy with rfl | rfl
    · decide
    · decide

/-! ## Forests -/

theorem expectEnd_outcome {S : Setting} {b s : ParserState} {seg : List Token} {ts : List Tree}
    {α : Type} {a : α} {Q : α → List Token → List Tree → Prop} (h : Step S b s seg ts)
    (hQ : s.cursor.rest = [] → Q a seg ts) :
    Outcome S b Q ((do Parser.expectEnd; return a : Parser α) env s) := by
  rw [Parser.bind_run, Action.bind_run, Parser.expectEnd]
  cases hrest : s.cursor.rest with
  | nil => exact .done h (hQ hrest)
  | cons t rest => exact .lost h.lose

/-- A program is read with nested productions on a bound taken from the number of tokens. -/
theorem program_parse_run (env : ParserEnv) (s : ParserState) :
    Production.program.parse env s =
      program (readN (4 * s.cursor.rest.length + 7)) env s := rfl

theorem any_fits (s : ParserState) : Setting.any.Fits s := ⟨trivial, fun _ _ => trivial⟩

/-- Whatever a whole input is read as, it leaves trees behind. -/
theorem goal_outcome (hext : env.extensions = .builtin) (goal : Goal) (s : ParserState) :
    Outcome .any s (One anything) (goal.parse env s) := by
  cases goal with
  | program =>
    have hread := program_outcome (sound_any hext (4 * s.cursor.rest.length + 7)) (any_fits s)
    rw [← program_parse_run] at hread
    refine hread.mono fun id seg ts hid => ?_
    obtain ⟨us, t, rfl, rfl, _⟩ := hid
    exact ⟨t, rfl, rfl, trivial⟩
  | expression =>
    have hread : Outcome .any s (One anything) (Production.expression.parse env s) :=
      (sound_any hext _).expression s (any_fits s)
    exact hread.bind fun id s₁ seg ts hid h₁ => expectEnd_outcome h₁ fun _ => hid
  | type =>
    have hread : Outcome .any s (One anything) (Production.type.parse env s) :=
      Reads.forget (sound_any hext _).type s (any_fits s)
    exact hread.bind fun id s₁ seg ts hid h₁ => expectEnd_outcome h₁ fun _ => hid

/-- Whatever the tokens, the operators and the switches are, and however the run ends, the arena
is a forest, so a parent is never found twice; and the node of a run that succeeds is a root. -/
theorem parse_isForest (goal : Goal) (mangle : String → String) (config : Config)
    (tokens : List Token) (table : OperatorTable) :
    let run := goal.parse ⟨.builtin, mangle, config⟩ (.start tokens table)
    run.2.work.arena.IsForest ∧
      (∀ id, ∃ parent, run.2.work.arena.findParent id = .ok parent) ∧
      ∀ root, run.1 = .ok root → run.2.work.arena.IsRoot root := by
  intro run
  have hrun : Outcome .any (.start tokens table) (One anything) run := goal_outcome rfl goal _
  generalize run = r at hrun
  cases hrun with
  | @done id s seg ts step post =>
    obtain ⟨t, rfl, rfl, _⟩ := post
    obtain ⟨rest, hforest⟩ := step.arena
    refine ⟨hforest.isForest, findParent_ok hforest.isForest.apart, fun root hroot => ?_⟩
    cases hroot
    exact hforest.isRoot List.mem_cons_self
  | lost lost =>
    obtain ⟨rest, hforest⟩ := lost.arena
    refine ⟨hforest.isForest, findParent_ok hforest.isForest.apart, fun root hroot => ?_⟩
    cases hroot

end ApiSyntax
