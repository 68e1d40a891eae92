/-
  ApiSyntax/Proofs/Grammar/ProgramComplete.lean --- programs of the language are read.

  The knot of the productions is tied for acceptance: what every production accepts on a
  bound, it accepts because those nested in it do on the bound below.  A program without
  annotations is read API by API, and its node is not tagged.
-/
import ApiSyntax.Proofs.Grammar.DeclarationComplete

set_option autoImplicit false

namespace ApiSyntax.Grammar

open ApiSyntax.Language ApiSyntax.Parser ApiSyntax.Production

variable {S : Setting} {env : ParserEnv} {read : Production → Parser NodeId} {E : Phrase}
  {n : Nat} {s : ParserState} {seg rest : List Token}

/-! ## The knot -/

/-- What the productions accept on a bound, with expressions `E` and no annotations. -/
structure Covers (S : Setting) (env : ParserEnv) (E : Phrase) (read : Production → Parser NodeId)
    (n : Nat) : Prop where
  type : Complete S env (read .type) (Typing env) n anyEnd
  pair : Complete S env (read .pair) (Pair env) n anyEnd
  expression : Complete S env (read .expression) E (n - 1) ExpressionEnd
  returned : Complete S env (read .returned) (Return E) (n - 1) ExpressionEnd
  statement : Complete S env (statement read) (Statement env E Nothing) n ExpressionEnd
  body : ReadsBody S env (read .block) (Statement env E Nothing) n
  block : Complete S env (read .block) (Block (Statement env E Nothing) E) n anyEnd
  signature : Complete S env (read .signature) (Signature env) n (Stops [.lparen])
  within : Complete S env (read .within) (Within env) n anyEnd
  withApis : Complete S env (read .withApis) (WithApis env) n (Stops [.keyword])
  declaration : Complete S env (declaration read) (Declaration env E Nothing) n
    (DeclarationEnd env n)
  api : Complete S env (read .api) (Api env E Nothing) n anyEnd
  pairFails : 0 < n → ∀ s, s.cursor.check .identifier = false → Fails (read .pair) env s
  withinFails : 0 < n → ∀ s, s.cursor.checkKeyword "within" = false → Fails (read .within) env s
  withFails : 0 < n → ∀ s, s.cursor.checkKeyword "with" = false → Fails (read .withApis) env s

theorem pair_fails (h : s.cursor.check .identifier = false) : Fails (pair read) env s := by
  have hname : Fails identifier env s := (expect_fails h).bind
  exact hname.bind

theorem Covers.step (h : Covers S env E read n) (hsound : Sound S env E Nothing read)
    (hstart : Starts expressionStarts E)
    (hE : Complete S env (step read .expression) E n ExpressionEnd) :
    Covers S env E (step read) (n + 1) where
  type := (type_complete h.type).mono (by omega)
  pair := pair_complete h.type
  expression := hE
  returned := (returned_complete h.expression).mono (by omega)
  statement := statement_complete hstart hsound.expression h.type h.expression h.body (by omega)
    (by omega)
  body := block_readsBody h.statement (by omega)
  block := block_complete h.statement h.returned (by omega) (by omega)
  signature := signature_complete hsound.type h.type h.pair
  within := within_complete
  withApis := withApis_complete
  declaration := declaration_complete hsound.pair h.pair h.pairFails h.signature h.block
  api := api_complete hsound.within hsound.withApis h.within h.withApis h.withinFails h.withFails
    h.declaration
  pairFails _ _ hs := pair_fails hs
  withinFails _ _ hs := (expectKeyword_fails hs).bind
  withFails _ _ hs := (expectKeyword_fails hs).bind

theorem api_ne_nil {t : Tree} (h : Api env E Nothing seg t) : seg ≠ [] := by
  cases h
  exact List.cons_ne_nil _ _

/-- On no bound there is nothing that could be accepted. -/
theorem covers_readN_zero (hstart : Starts expressionStarts E) : Covers S env E (readN 0) 0 where
  type := complete_zero fun _ _ => typing_starts.ne_nil
  pair := complete_zero fun _ _ => pair_starts.ne_nil
  expression := complete_zero fun _ _ => hstart.ne_nil
  returned := complete_zero fun seg t ht => by
    cases ht
    exact List.cons_ne_nil _ _
  statement := complete_zero fun seg t ht => by
    obtain ⟨a, tail, rfl, _⟩ := statement_start ht
    exact List.cons_ne_nil _ _
  body := by
    intro seg t ht hn
    cases ht
    exact absurd hn (by simp)
  block := complete_zero fun _ _ => block_starts.ne_nil
  signature := complete_zero fun _ _ => signature_starts.ne_nil
  within := complete_zero fun seg t ht => by
    cases ht
    exact List.cons_ne_nil _ _
  withApis := complete_zero fun seg t ht => by
    cases ht
    exact List.cons_ne_nil _ _
  declaration := complete_zero fun seg t ht => by
    obtain ⟨a, tail, rfl, _⟩ := declaration_start ht
    exact List.cons_ne_nil _ _
  api := complete_zero fun seg t ht => api_ne_nil ht
  pairFails h := absurd h (Nat.lt_irrefl 0)
  withinFails h := absurd h (Nat.lt_irrefl 0)
  withFails h := absurd h (Nat.lt_irrefl 0)

/-- What belongs to a production is accepted, given that expressions are. -/
theorem covers_readN (hsound : ∀ depth, Sound S env E Nothing (readN depth))
    (hstart : Starts expressionStarts E)
    (hE : ∀ depth, Complete S env (readN depth .expression) E (depth - 1) ExpressionEnd)
    (depth : Nat) : Covers S env E (readN depth) depth := by
  induction depth with
  | zero => exact covers_readN_zero hstart
  | succ depth ih => exact ih.step (hsound depth) hstart (hE (depth + 1))

/-! ## Programs -/

section Programs

/-- The rules of a program. -/
def topLevel (read : Production → Parser NodeId) : List Rule :=
  [Production.annotationCall, .api].map (Production.ruleOf read)

/-- Where an API starts no other rule applies. -/
theorem topLevel_filter {k : Token} {tail : List Token} (hk : k.isValue .keyword "api") :
    (topLevel read).filter (·.accepts (k :: tail)) = [Production.ruleOf read .api] := by
  have hsign : k.is .annotationSign = false := Token.is_of_is (is_of_isValue hk) _
  simp [topLevel, Rule.accepts, Production.ruleOf, trigger, startsWith, startsWithKeyword, hsign, hk]

theorem executeRound_api {t : Tree} {ids : List NodeId}
    (hapi : Complete S env (read .api) (Api env E Nothing) n anyEnd)
    (ht : Api env E Nothing seg t) (hn : seg.length ≤ n) (hs : S.Fits s)
    (hrest : s.cursor.rest = seg ++ rest) :
    Accepts S (executeRound (topLevel read) ids) env s rest (Continues AnyResult) := by
  have hread : ∀ s', S.Fits s' → s'.cursor.rest = seg ++ rest →
      Accepts S (read .api) env s' rest AnyResult :=
    fun s' hs' hrest' => hapi seg t ht hn s' rest hs' hrest' trivial
  cases ht with
  | mk hk =>
    refine .remaining ?_
    rw [hrest]
    simp only [List.cons_append, topLevel_filter hk]
    refine .note hs hrest fun s₁ hs₁ hrest₁ => ?_
    exact (hread s₁ hs₁ hrest₁).bind fun id s₂ hs₂ hrest₂ _ => .pure hs₂ hrest₂ trivial

/-- APIs are read to the end. -/
theorem execute_accepts {ts : List Tree}
    (hapi : Complete S env (read .api) (Api env E Nothing) n anyEnd)
    (h : Repeated (Api env E Nothing) seg ts) (hn : seg.length ≤ n) (hs : S.Fits s)
    (hrest : s.cursor.rest = seg) :
    Accepts S (execute (topLevel read)) env s [] fun _ _ => True := by
  have hall : s.cursor.rest = seg ++ [] := by rw [hrest, List.append_nil]
  refine loop_accepts (loopN_repeated (k := 1) (J := fun _ => True) (F := anyEnd) h hn
    (fun _ _ => api_ne_nil) (fun _ _ _ _ _ _ => trivial) trivial ?_ ?_ hs hall ?_ trivial)
  · intro ids s seg t rest ht hseg hs hrest _ _
    exact executeRound_api hapi ht hseg hs hrest
  · intro ids s fuel hs hrest hfuel _
    obtain ⟨fuel, rfl⟩ : ∃ m, fuel = m + 1 := ⟨fuel - 1, by omega⟩
    refine loopN_done (.remaining ?_)
    rw [hrest]
    exact .pure hs hrest trivial
  · have hlength : s.cursor.rest.length = seg.length := congrArg List.length hrest
    omega

/-- Where there are no annotations the parts of a program are APIs. -/
theorem apis_of_topLevel {us : List Tree} (h : Repeated (TopLevel env E Nothing) seg us) :
    Repeated (Api env E Nothing) seg us ∧ us.filter annotates = [] ∧
      (us.filter fun u => !annotates u) = us := by
  induction h with
  | none => exact ⟨.none, rfl, rfl⟩
  | @some seg others t us first _ ih =>
    obtain ⟨hothers, hnone, hall⟩ := ih
    cases first with
    | annotated phrase => exact phrase.elim
    | api api =>
      have hkind : annotates t = false := by
        cases api
        rfl
      refine ⟨.some api hothers, ?_, ?_⟩
      · rw [List.filter_cons_of_neg (by simp [hkind]), hnone]
      · rw [List.filter_cons_of_pos (by simp [hkind]), hall]

theorem program_accepts {ts : List Tree} (hsound : Sound S env E Nothing read)
    (hapi : Complete S env (read .api) (Api env E Nothing) n anyEnd)
    (hstrict : env.config.permissive = false) (h : Repeated (Api env E Nothing) seg ts)
    (hn : seg.length ≤ n) (hs : S.Fits s) (hrest : s.cursor.rest = seg) :
    Accepts S (program read) env s [] AnyResult := by
  refine .startToken ?_
  have hparts : Accepts S (inPhase .program (execute (topLevel read))) env s [] fun _ _ => True :=
    inPhase_accepts (Q := fun _ => True)
      (execute_accepts hapi h hn ⟨hs.tables, hs.tokens⟩ hrest)
  refine hparts.after (parts_outcome hsound hs) fun ids s₁ seg₁ us hids h₁ hrest₁ _ => ?_
  obtain ⟨rfl, rfl, hus⟩ := hids
  obtain ⟨_, hnone, _⟩ := apis_of_topLevel (hus hstrict)
  refine .atArena (separate_eq fun u hu => h₁.arena.holds hu) ?_
  rw [hnone]
  refine (alloc_accepts h₁.fits hrest₁).bind fun id s₂ hs₂ hrest₂ _ => ?_
  exact .pure hs₂ hrest₂ trivial

end Programs

end ApiSyntax.Grammar
