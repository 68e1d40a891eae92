/-
  ApiSyntax/Proofs/Grammar/Progress.lean --- every production makes progress, so parsing ends.

  A production that succeeds passes a token, whatever the extensions did meanwhile.  So does each
  round of a loop but the last, and the bound that a loop runs on is never what ends it.  The
  bound on the depth of productions is not used up either, as long as extensions leave the arena
  alone, since settling a node needs the tree that was built.
-/
import ApiSyntax.Proofs.Grammar.Phases
import ApiSyntax.Proofs.Grammar.ProgramFaults
import ApiSyntax.Proofs.Parser.Rounds
import ApiSyntax.Reading

set_option autoImplicit false

namespace ApiSyntax

open Grammar Coupling

variable {env : ParserEnv} {α β γ : Type} {s s' : ParserState}

/-! ## Productions -/

/-- What a run beside itself passes. -/
theorem Coupling.Tandem.passes {x : Parser α} {l : Level} {h : α → Mark} {P : α → Prop}
    (hx : ∀ s : ParserState,
      (journey env False s.cursor l).Tandem s.phase ⟨l, false⟩ x x h)
    (hP : ∀ a, P a → (h a).moved) : Parser.Passes env x P := by
  intro s a s' hrun ha
  obtain ⟨seg, htravels⟩ := Coupling.Tandem.travels (m := ⟨l, false⟩) (hx s) rfl hrun
  exact ⟨seg, htravels.moved (hP a ha), htravels.passes⟩

/-- A round that runs in tandem with itself passes a token unless it is the last. -/
theorem Coupling.Tandem.round_passes {round : Parser (Parser.Round β γ)} {l : Level}
    {m : Mark} {done : γ → Mark} (hm : m.moved)
    (hround : ∀ s : ParserState, (journey env False s.cursor l).Tandem s.phase ⟨l, false⟩ round
      round (rounds m done)) : Parser.Passes env round Parser.Round.IsMore := by
  refine Coupling.Tandem.passes hround fun r hr => ?_
  cases r with
  | more next => exact hm
  | done result => exact hr.elim

/-- A production runs in tandem with itself. -/
theorem readN_itself {C : Coupling} [C.Lawful] {φ : Phase} (depth : Nat) {p : Production}
    (hp : p ≠ .program) : C.Between φ (readN depth p) (readN depth p) :=
  readN_between (.inl rfl) (.inl hp)

theorem readN_passes (depth : Nat) {p : Production} (hp : p ≠ .program) :
    Parser.Passes env (readN depth p) fun _ => True :=
  Coupling.Tandem.passes (fun _ => readN_itself depth hp 0 false) fun _ _ => rfl

/-! ## Loops -/

variable (depth : Nat)

theorem listRound_passes {element : Parser NodeId}
    (helement : element ∈ [namedType, readN depth .pair, readN depth .expression,
      parameter (readN depth)]) (items : List NodeId) :
    Parser.Passes env (Parser.listRound element items) Parser.Round.IsMore := by
  refine Coupling.Tandem.round_passes (m := .inside 0 true) rfl fun s =>
    listRound_tandem ?_ 0 false items
  simp only [List.mem_cons, List.not_mem_nil, or_false] at helement
  rcases helement with rfl | rfl | rfl | rfl
  · exact namedType_between
  · exact readN_itself depth (by decide)
  · exact readN_itself depth (by decide)
  · exact choice_between fun p hp => readN_itself depth
      (Production.ne_program_of_nested .annotationCall p hp)

theorem chainRound_passes (receiver : NodeId) :
    Parser.Passes env (chainRound (readN depth) receiver) Parser.Round.IsMore :=
  Coupling.Tandem.round_passes (m := .inside 0 true) rfl fun _ =>
    chainRound_tandem (readN_itself depth (by decide)) 0 false receiver

theorem blockRound_passes (opened : Span) (b : BlockSoFar) :
    Parser.Passes env (blockRound (readN depth) opened b) Parser.Round.IsMore :=
  Coupling.Tandem.round_passes (m := .inside 1 true) rfl fun _ =>
    blockRound_tandem (readN_itself depth (by decide))
      (fun p hp => readN_itself depth
        (Production.ne_program_of_nested .block p (List.mem_cons_of_mem _ hp))) opened 0 false b

theorem apiRound_passes (opened : Span) (body : List NodeId) :
    Parser.Passes env (apiRound (readN depth) opened body) Parser.Round.IsMore :=
  Coupling.Tandem.round_passes (m := .inside 0 true) rfl fun _ =>
    apiRound_tandem (fun p hp => readN_itself depth (Production.ne_program_of_nested .api p
      (List.mem_cons_of_mem _ (List.mem_cons_of_mem _ hp)))) opened 0 false body

/-- At the top level a round reads a production or passes over a token. -/
theorem executeRound_passes {ps : List Production} (hps : .program ∉ ps) (nodes : List NodeId) :
    Parser.Passes env (Parser.executeRound (ps.map (Production.ruleOf (readN depth))) nodes)
      Parser.Round.IsMore := by
  intro s r s' hrun hr
  cases hrest : s.cursor.rest with
  | nil =>
    rw [Parser.executeRound_nil hrest] at hrun
    cases hrun
    exact hr.elim
  | cons t ts =>
    by_cases hone : ∃ rule, (ps.map (Production.ruleOf (readN depth))).filter
        (·.accepts (t :: ts)) = [rule]
    · obtain ⟨rule, hone⟩ := hone
      have hmem : rule ∈ ps.map (Production.ruleOf (readN depth)) :=
        List.mem_of_mem_filter (hone ▸ List.mem_singleton_self rule)
      obtain ⟨p, hp, rfl⟩ := List.mem_map.mp hmem
      have hp : p ≠ .program := fun h => hps (h ▸ hp)
      rcases hread : readN depth p env (s.noted (.entered p.name t.span)) with ⟨e | id, s₁⟩
      · rw [Parser.executeRound_read hrest hone hread] at hrun
        cases hrun
      · rw [Parser.executeRound_read hrest hone hread] at hrun
        cases hrun
        exact readN_passes depth hp (s.noted _) id _ hread trivial
    · have hnot := not_exists.mp hone
      cases hpermissive : env.config.permissive with
      | true =>
        rw [Parser.executeRound_discard hpermissive hrest hnot] at hrun
        cases hrun
        exact ⟨[t], List.cons_ne_nil t [], ⟨hrest, rfl⟩⟩
      | false =>
        obtain ⟨d, s₁, hrefuse⟩ := Parser.executeRound_refuse hpermissive hrest hnot
        rw [hrefuse] at hrun
        cases hrun

/-! ## The whole grammar -/

/-- The bound on the depth of productions is not used up. -/
theorem parse_bounded (hext : ∀ name e, env.extensions.get? name = some e → e.KeepsArena)
    (p : Production) (s : ParserState) : (p.parse env s).1 ≠ .error .exhausted := by
  have hs : Setting.any.Fits s := ⟨trivial, fun _ _ => trivial⟩
  have htidy : Tidy False Setting.any.Tokens (p.parse env s) :=
    parse_tidy (fun _ => trivial) hext False.elim p hs False.elim
  exact htidy.bounded

/-- Every production but a program passes a token when it succeeds, whatever the extensions do.  No
whole input uses up a bound while the extensions leave the arena alone, and a larger bound on the
depth changes nothing.  Each loop ends after at most one round for each token that remains. -/
theorem Grammar.parse_terminates :
    (∀ env s (p : Production) id s', p ≠ .program → p.parse env s = (.ok id, s') →
      ∃ seg, seg ≠ [] ∧ s.cursor.Passes s'.cursor seg) ∧
    (∀ env : ParserEnv, (∀ name e, env.extensions.get? name = some e → e.KeepsArena) →
      ∀ s, (∀ goal : Goal, (goal.parse env s).1 ≠ .error .exhausted) ∧
        ∀ (p : Production) depth, Production.depth s.cursor.rest.length ≤ depth →
          readN depth p env s = p.parse env s) ∧
    ∀ env depth,
      (∀ element ∈ [namedType, readN depth .pair, readN depth .expression,
        parameter (readN depth)], Parser.OncePerToken env (Parser.listRound element)) ∧
      Parser.OncePerToken env (chainRound (readN depth)) ∧
      (∀ opened, Parser.OncePerToken env (blockRound (readN depth) opened)) ∧
      (∀ opened, Parser.OncePerToken env (apiRound (readN depth) opened)) ∧
      Parser.OncePerToken env (Parser.executeRound
        ([.annotationCall, .api].map (Production.ruleOf (readN depth)))) := by
  refine ⟨fun env s p id s' hp hrun => readN_passes _ hp s id s' hrun trivial,
    fun env hext s => ⟨fun goal => ?_, fun p depth hdepth => ?_⟩,
    fun env depth => ⟨fun element helement => ?_, ?_, fun opened => ?_, fun opened => ?_, ?_⟩⟩
  · have hs : Setting.any.Fits s := ⟨trivial, fun _ _ => trivial⟩
    have htidy : Tidy False Setting.any.Tokens (goal.parse env s) :=
      goal_tidy (fun _ => trivial) hext False.elim goal hs False.elim
    exact htidy.bounded
  · have hbetween : (Coupling.itself env True).Between s.phase
        (readN (Production.depth s.cursor.rest.length) p) (readN depth p) :=
      readN_between (.inr ⟨trivial, hdepth⟩) (.inr strict_itself)
    obtain ⟨hsame, -⟩ | ⟨-, hspent⟩ := (hbetween 0 false).same_of_beside
    · exact hsame.symm
    · exact absurd hspent (parse_bounded hext p s)
  · exact Parser.oncePerToken (listRound_passes depth helement)
  · exact Parser.oncePerToken (chainRound_passes depth)
  · exact Parser.oncePerToken (blockRound_passes depth opened)
  · exact Parser.oncePerToken (apiRound_passes depth opened)
  · exact Parser.oncePerToken (executeRound_passes depth (by decide))

/-- One name alone: it is passed, and twenty levels are enough to read it as an expression. -/
theorem Grammar.parse_terminates_name :
    let s : ParserState := .start [⟨.identifier, "x", .start⟩] .builtin
    (∃ id s', Production.identifier.parse .standard s = (.ok id, s') ∧
      ∃ seg, seg ≠ [] ∧ s.cursor.Passes s'.cursor seg) ∧
    (∀ goal : Goal, (goal.parse .standard s).1 ≠ .error .exhausted) ∧
    readN 20 .expression .standard s = Production.expression.parse .standard s := by
  intro s
  have hends := parse_terminates.2.1 .standard (keepsArena_of_builtin rfl) s
  refine ⟨⟨_, _, rfl, ?_⟩, hends.1, hends.2 .expression 20 (by decide)⟩
  exact parse_terminates.1 .standard s .identifier _ _ (by decide) rfl

end ApiSyntax
