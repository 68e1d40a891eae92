/-
  ApiSyntax/Proofs/Grammar/Acceptance.lean --- which token sequences are accepted.

  Main statements: an expression is accepted exactly when its tokens are an expression of
  the language (`parseExpression_iff`), and a program without annotations exactly when its
  tokens are a program of the language (`parseProgram_iff`).  The tree that is made
  mirrors what was accepted.
-/
import ApiSyntax.Proofs.Grammar.Goals
import ApiSyntax.Proofs.Grammar.ProgramComplete
import ApiSyntax.Proofs.Tokenizer.Literals

set_option autoImplicit false

namespace ApiSyntax

open ApiSyntax.Arena ApiSyntax.Grammar ApiSyntax.Language ApiSyntax.Tokenizer

variable {env : ParserEnv} {table : OperatorTable} {tokens : List Token}

/-! ## Expressions -/

/-- What is read as an expression to the end is one. -/
theorem goal_expression_sound {id : NodeId} {s : ParserState}
    (hrun : Goal.expression.parse env (.start tokens table) = (.ok id, s)) :
    ∃ t, Expression env table tokens t ∧ t.root = id ∧ s.work.arena.Holds t := by
  have hread : Outcome (.fixed table) (.start tokens table)
      (fun id seg ts => seg = tokens ∧ One (Expression env table) id seg ts)
      (Goal.expression.parse env (.start tokens table)) := by
    refine (expression_outcome env (.start tokens table)).bind fun id s₁ seg ts hid h₁ => ?_
    refine expectEnd_outcome h₁ fun hend => ⟨?_, hid⟩
    have hahead : tokens = seg ++ s₁.cursor.rest := h₁.passes.ahead
    rw [hend, List.append_nil] at hahead
    exact hahead.symm
  rw [hrun] at hread
  obtain ⟨seg, ts, step, rfl, t, rfl, rfl, ht⟩ := hread.of_ok
  exact ⟨t, ht, rfl, step.arena.holds List.mem_cons_self⟩

/-- A production is read on a bound taken from the number of tokens. -/
theorem production_run (p : Production) (s : ParserState) :
    p.parse env s = readN (Production.depth s.cursor.rest.length) p env s := rfl

/-- An expression at the start of the tokens is read. -/
theorem expression_accepted {t : Tree} {seg rest : List Token} {s : ParserState}
    (ht : Expression env s.work.operators seg t) (hrest : s.cursor.rest = seg ++ rest)
    (hends : ExpressionEnd rest) :
    Accepts (.fixed s.work.operators) Production.expression.parse env s rest AnyResult := by
  have hdepth : seg.length ≤ Production.depth s.cursor.rest.length - 1 := by
    rw [hrest, List.length_append, Production.depth]
    omega
  have hcomplete : Complete (.fixed s.work.operators) env
      (readN (Production.depth s.cursor.rest.length) .expression)
      (Expression env s.work.operators) (Production.depth s.cursor.rest.length - 1)
      ExpressionEnd := readN_expression_complete (fun _ htable => htable) _
  have hread := hcomplete seg t ht hdepth s rest (fixed_fits s) hrest hends
  exact hread.of_eq (production_run _ _)

/-- An expression is read to its end. -/
theorem goal_expression_complete {t : Tree} (ht : Expression env table tokens t) :
    ∃ id s, Goal.expression.parse env (.start tokens table) = (.ok id, s) := by
  have hexpr : Accepts (.fixed table) Production.expression.parse env (.start tokens table) []
      AnyResult := expression_accepted ht (List.append_nil tokens).symm stops_nil
  have hend : Accepts (.fixed table) Goal.expression.parse env (.start tokens table) []
      AnyResult := by
    refine hexpr.bind fun id s hs hrest _ => ?_
    refine ⟨id, s, ?_, hrest, hs, trivial⟩
    rw [Parser.bind_run, Action.bind_run, Parser.expectEnd, hrest]
    rfl
  obtain ⟨id, s, hrun, _⟩ := hend
  exact ⟨id, s, hrun⟩

/-- The tokens of a text are accepted as an expression exactly when they are one: operands with
declared infix operators between them, where an operand is a literal, a list, a call with its
links, a name with its links, something between parentheses, or a declared prefix operator and
an operand.  The tree mirrors the tokens.  Of the literals all reals are operands, and those
integers that 64 bits hold. -/
theorem parseExpression_iff {text : List Char} (hcut : builtin.tokenize text = .ok tokens)
    (env : ParserEnv) (table : OperatorTable) :
    let run := Goal.expression.parse env (.start tokens table)
    ((∃ id, run.1 = .ok id) ↔ ∃ t, Expression env table tokens t) ∧
      (∀ id, run.1 = .ok id →
        ∃ t, Expression env table tokens t ∧ t.root = id ∧ run.2.work.arena.Holds t) ∧
      ∀ token ∈ tokens,
        (token.is .real → (Binary64.read token.value.toList).isSome) ∧
          (token.is .integer → readInt64 token.value.toList =
            if decimalValue token.value.toList ≤ 0x7fffffffffffffff
              then some (decimalValue token.value.toList : Int) else none) := by
  intro run
  have hmirrors : ∀ id, run.1 = .ok id →
      ∃ t, Expression env table tokens t ∧ t.root = id ∧ run.2.work.arena.Holds t := by
    intro id hid
    exact goal_expression_sound (Prod.ext hid rfl)
  refine ⟨⟨?_, ?_⟩, hmirrors, fun token htoken => ⟨fun hreal => ?_, fun hinteger => ?_⟩⟩
  · rintro ⟨id, hid⟩
    obtain ⟨t, ht, _⟩ := hmirrors id hid
    exact ⟨t, ht⟩
  · rintro ⟨t, ht⟩
    obtain ⟨id, s, hrun⟩ := goal_expression_complete ht
    exact ⟨id, congrArg Prod.fst hrun⟩
  · obtain ⟨u, v, hvalue, hu, hv⟩ := real_text hcut htoken hreal
    rw [hvalue]
    exact read_point hu hv
  · exact readInt64_digits (integer_text hcut htoken hinteger)

theorem parseExpression_iff_chain :
    ∃ tokens id, builtin.tokenize "x.f(1).g(2.5, [y])".toList = .ok tokens ∧
      (Goal.expression.parse .standard (.start tokens .builtin)).1 = .ok id ∧
        ∃ t, Expression .standard .builtin tokens t ∧ t.root = id := by
  have hread : ((builtin.tokenize "x.f(1).g(2.5, [y])".toList).toOption.any fun tokens =>
      (Goal.expression.parse .standard (.start tokens .builtin)).1.toOption.isSome) = true := by
    decide +kernel
  cases hcut : builtin.tokenize "x.f(1).g(2.5, [y])".toList with
  | error d =>
    rw [hcut] at hread
    cases hread
  | ok tokens =>
    rw [hcut] at hread
    obtain ⟨id, s, hrun⟩ := Outcome.exists_ok hread
    obtain ⟨_, hmirrors, _⟩ := parseExpression_iff hcut .standard .builtin
    have hid : (Goal.expression.parse .standard (.start tokens .builtin)).1 = .ok id :=
      congrArg Prod.fst hrun
    obtain ⟨t, ht, hroot, _⟩ := hmirrors id hid
    exact ⟨tokens, id, rfl, hid, t, ht, hroot⟩

/-! ## Programs -/

theorem plain_fits (h : ∀ t ∈ tokens, t.is .annotationSign = false) :
    (Setting.plain table).Fits (.start tokens table) := ⟨rfl, h⟩

/-- Where there is no annotation sign no annotation is read. -/
theorem annotationCall_reads_nothing {read : Production → Parser NodeId} :
    Reads (.plain table) env (annotationCall read) (One Nothing) := by
  intro s hs
  unfold annotationCall
  refine (Step.refl hs).token (Parser.expect_reads .annotationSign) fun t s₁ ht h₁ => ?_
  have hmem : t ∈ s.cursor.rest := by
    rw [h₁.passes.ahead]
    exact List.mem_append_left _ List.mem_cons_self
  have hnot : t.is .annotationSign = false := hs.tokens t hmem
  rw [hnot] at ht
  cases ht

theorem sound_plain (depth : Nat) :
    Sound (.plain table) env (Expression env table) Nothing (readN depth) :=
  sound_readN (readN_expression_reads fun _ htable => htable)
    (fun _ _ => annotationCall_reads_nothing) depth

theorem covers_plain (depth : Nat) :
    Covers (.plain table) env (Expression env table) (readN depth) depth :=
  covers_readN sound_plain expression_starts
    (readN_expression_complete fun _ htable => htable) depth

/-- What is read as a program is one. -/
theorem goal_program_sound {id : NodeId} {s : ParserState}
    (hplain : ∀ t ∈ tokens, t.is .annotationSign = false)
    (hstrict : env.config.permissive = false)
    (hrun : Goal.program.parse env (.start tokens table) = (.ok id, s)) :
    ∃ t, Program env (Expression env table) Nothing tokens t ∧ t.root = id ∧
      s.work.arena.Holds t := by
  have hsound : Sound (.plain table) env (Expression env table) Nothing
      (readN (4 * tokens.length + 7)) := sound_plain _
  have hread := program_outcome hsound (plain_fits hplain)
  have hprogram : program (readN (4 * tokens.length + 7)) env (.start tokens table) = (.ok id, s) :=
    hrun
  rw [hprogram] at hread
  obtain ⟨seg, ts, step, us, t, rfl, rfl, rfl, hus, htree⟩ := hread.of_ok
  obtain ⟨hapis, hnone, hall⟩ := apis_of_topLevel (hus hstrict)
  rw [hnone, hall] at htree
  refine ⟨t, ?_, rfl, step.arena.holds List.mem_cons_self⟩
  rw [htree]
  exact .mk hapis

/-- A program without annotations is read to its end. -/
theorem goal_program_complete {t : Tree} (hplain : ∀ t ∈ tokens, t.is .annotationSign = false)
    (hstrict : env.config.permissive = false)
    (ht : Program env (Expression env table) Nothing tokens t) :
    ∃ id s, Goal.program.parse env (.start tokens table) = (.ok id, s) := by
  cases ht with
  | mk declared =>
    have hlength : tokens.length ≤ 4 * tokens.length + 7 := by omega
    have hcovers : Covers (.plain table) env (Expression env table)
        (readN (4 * tokens.length + 7)) (4 * tokens.length + 7) := covers_plain _
    have hread := program_accepts (sound_plain _) hcovers.api hstrict declared hlength
      (plain_fits hplain) rfl
    obtain ⟨id, s, hrun, _⟩ := hread
    exact ⟨id, s, hrun⟩

/-- Tokens without an annotation sign are accepted as a program, when no token may be passed over,
exactly when they are one: APIs, each with the APIs it refers to, its types and its methods.  The
tree mirrors the tokens.  That the properties of a type and the receiver of a method both stand in
parentheses, and that clauses may be missing, makes no difference to what is accepted. -/
theorem parseProgram_iff (hplain : ∀ t ∈ tokens, t.is .annotationSign = false)
    (hstrict : env.config.permissive = false) (table : OperatorTable) :
    let run := Goal.program.parse env (.start tokens table)
    ((∃ id, run.1 = .ok id) ↔
        ∃ t, Program env (Expression env table) Nothing tokens t) ∧
      ∀ id, run.1 = .ok id →
        ∃ t, Program env (Expression env table) Nothing tokens t ∧ t.root = id ∧
          run.2.work.arena.Holds t := by
  intro run
  have hmirrors : ∀ id, run.1 = .ok id →
      ∃ t, Program env (Expression env table) Nothing tokens t ∧ t.root = id ∧
        run.2.work.arena.Holds t := by
    intro id hid
    exact goal_program_sound hplain hstrict (Prod.ext hid rfl)
  refine ⟨⟨?_, ?_⟩, hmirrors⟩
  · rintro ⟨id, hid⟩
    obtain ⟨t, ht, _⟩ := hmirrors id hid
    exact ⟨t, ht⟩
  · rintro ⟨t, ht⟩
    obtain ⟨id, s, hrun⟩ := goal_program_complete hplain hstrict ht
    exact ⟨id, congrArg Prod.fst hrun⟩

/-- An API whose type has no properties, so that a method follows its name. -/
def twoDeclarations : List Char :=
  "api A with B { type T (t T) f (x X) (Y) { y = x.g(1) return -y } }".toList

theorem parseProgram_iff_twoDeclarations :
    ∃ tokens id, builtin.tokenize twoDeclarations = .ok tokens ∧
      (Goal.program.parse .standard (.start tokens .builtin)).1 = .ok id ∧
        ∃ t, Program .standard (Expression .standard .builtin) Nothing tokens t ∧ t.root = id := by
  have hread : ((builtin.tokenize twoDeclarations).toOption.any fun tokens =>
      tokens.all (fun t => !t.is .annotationSign) &&
        (Goal.program.parse .standard (.start tokens .builtin)).1.toOption.isSome) = true := by
    decide +kernel
  cases hcut : builtin.tokenize twoDeclarations with
  | error d =>
    rw [hcut] at hread
    cases hread
  | ok tokens =>
    rw [hcut] at hread
    obtain ⟨hplain, hsome⟩ := Bool.and_eq_true_iff.mp hread
    obtain ⟨id, s, hrun⟩ := Outcome.exists_ok hsome
    have hnone : ∀ t ∈ tokens, t.is .annotationSign = false := by
      intro t ht
      simpa using List.all_eq_true.mp hplain t ht
    have hstrict : ParserEnv.standard.config.permissive = false := rfl
    obtain ⟨_, hmirrors⟩ := parseProgram_iff hnone hstrict .builtin
    have hid : (Goal.program.parse .standard (.start tokens .builtin)).1 = .ok id :=
      congrArg Prod.fst hrun
    obtain ⟨t, ht, hroot, _⟩ := hmirrors id hid
    exact ⟨tokens, id, rfl, hid, t, ht, hroot⟩

end ApiSyntax
