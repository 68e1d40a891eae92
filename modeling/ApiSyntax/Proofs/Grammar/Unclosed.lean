/-
  ApiSyntax/Proofs/Grammar/Unclosed.lean --- a program that breaks off inside a block.

  A program is cut where a block stands open: behind its brace, or behind a complete
  declaration, statement or return statement in it.  A cut follows the derivation of the
  program down to the innermost open block, so it is a relation with a case for each place:
  the tokens that are kept, those that are dropped, and the brace of that block.

  What is kept is read as it would be in the whole program, level by level, and at its end
  the innermost block finds no token.  On each level above one production applies alone, so
  its failure is handed on as it is.

  Main statement: `program_unclosed`.
-/
import ApiSyntax.Proofs.Grammar.Acceptance
import ApiSyntax.Proofs.Grammar.SignFree
import ApiSyntax.Proofs.Parser.Refusals

set_option autoImplicit false

namespace ApiSyntax

/-! ## Cuts -/

namespace Language

open ApiSyntax.Grammar

/-- What closes a block: statements, possibly a last phrase `R`, and the brace. -/
inductive BlockRest (S R : Phrase) : List Token → Prop
  | mk {seg rest : List Token} {body : List Tree} {ret : Option Tree} {r : Token}
      (statements : Repeated S seg body) (last : Optional R rest ret) (hr : r.is .rbrace) :
      BlockRest S R (seg ++ (rest ++ [r]))

/-- A block whose last phrase may be an `R`, cut behind `kept`: behind complete statements, behind
that last phrase, or inside the block of a deferred statement, which has no such phrase. -/
inductive BlockCut (env : ParserEnv) (E : Phrase) :
    Phrase → List Token → List Token → Token → Prop
  | statements {R : Phrase} {l : Token} {seg dropped : List Token} {body : List Tree}
      (hl : l.is .lbrace) (statements : Repeated (Statement env E Nothing) seg body)
      (closing : BlockRest (Statement env E Nothing) R dropped) :
      BlockCut env E R (l :: seg) dropped l
  | last {R : Phrase} {l r : Token} {seg inner : List Token} {body : List Tree} {ret : Tree}
      (hl : l.is .lbrace) (statements : Repeated (Statement env E Nothing) seg body)
      (last : R inner ret) (hr : r.is .rbrace) : BlockCut env E R (l :: (seg ++ inner)) [r] l
  | deferred {R : Phrase} {l k brace : Token} {seg kept dropped rest : List Token}
      {body : List Tree} (hl : l.is .lbrace)
      (statements : Repeated (Statement env E Nothing) seg body) (hk : k.isValue .keyword "defer")
      (block : BlockCut env E Nothing kept dropped brace)
      (closing : BlockRest (Statement env E Nothing) R rest) :
      BlockCut env E R (l :: (seg ++ k :: kept)) (dropped ++ rest) brace

/-- The declarations of an API with the brace `l`, cut behind `kept`: behind complete ones, or in
the block of a method. -/
inductive DeclarationsCut (env : ParserEnv) (E : Phrase) (l : Token) :
    List Token → List Token → Token → Prop
  | behind {seg rest : List Token} {body others : List Tree}
      (declared : Repeated (Declaration env E Nothing) seg body)
      (more : Repeated (Declaration env E Nothing) rest others) :
      DeclarationsCut env E l seg rest l
  | method {seg head kept dropped rest : List Token} {body others : List Tree} {t : Tree}
      {brace : Token} (declared : Repeated (Declaration env E Nothing) seg body)
      (signature : Signature env head t) (block : BlockCut env E (Return E) kept dropped brace)
      (more : Repeated (Declaration env E Nothing) rest others) :
      DeclarationsCut env E l (seg ++ (head ++ kept)) (dropped ++ rest) brace

/-- An API, cut in its body. -/
inductive ApiCut (env : ParserEnv) (E : Phrase) : List Token → List Token → Token → Prop
  | mk {k t l r brace : Token} {inner outer kept dropped : List Token} {inside others : Option Tree}
      (hk : k.isValue .keyword "api") (ht : t.is .typeIdentifier)
      (within : Optional (Within env) inner inside) (withApis : Optional (WithApis env) outer others)
      (hl : l.is .lbrace) (declarations : DeclarationsCut env E l kept dropped brace)
      (hr : r.is .rbrace) :
      ApiCut env E (k :: t :: (inner ++ (outer ++ l :: kept))) (dropped ++ [r]) brace

/-- A program, cut in the body of one of its APIs. -/
inductive ProgramCut (env : ParserEnv) (E : Phrase) : List Token → List Token → Token → Prop
  | mk {seg kept dropped rest : List Token} {apis others : List Tree} {brace : Token}
      (declared : Repeated (Api env E Nothing) seg apis) (cut : ApiCut env E kept dropped brace)
      (more : Repeated (Api env E Nothing) rest others) :
      ProgramCut env E (seg ++ kept) (dropped ++ rest) brace

variable {env : ParserEnv} {E R S G : Phrase} {seg rest kept dropped : List Token}
  {ts us : List Tree} {brace l : Token}

/-! ## What a cut is a cut of -/

theorem Repeated.append (h : Repeated G seg ts) (h' : Repeated G rest us) :
    Repeated G (seg ++ rest) (ts ++ us) := by
  induction h with
  | none => exact h'
  | some first _ ih =>
    rw [List.append_assoc]
    exact .some first ih

/-- Statements between braces, and possibly a last phrase `R`. -/
inductive Braced (S R : Phrase) : List Token → Prop
  | mk {l : Token} {rest : List Token} (hl : l.is .lbrace) (closing : BlockRest S R rest) :
      Braced S R (l :: rest)

theorem BlockRest.prepend (h : Repeated S seg ts) (hrest : BlockRest S R rest) :
    BlockRest S R (seg ++ rest) := by
  cases hrest with
  | mk statements last hr =>
    rw [← List.append_assoc]
    exact .mk (h.append statements) last hr

theorem Braced.body (h : Braced S Nothing seg) : ∃ t, Body S seg t := by
  cases h with
  | mk hl closing =>
    cases closing with
    | mk statements last hr =>
      cases last with
      | none =>
        exact ⟨.node default _ _ _, .mk hl statements hr⟩
      | some phrase => exact phrase.elim

theorem Braced.block (h : Braced S (Return E) seg) : ∃ t, Block S E seg t := by
  cases h with
  | mk hl closing =>
    cases closing with
    | mk statements last hr =>
      cases last with
      | none =>
        exact ⟨.node default _ _ _, .plain (.mk hl statements hr)⟩
      | some phrase =>
        rw [← List.append_assoc]
        exact ⟨.node default _ _ _, .returning hl statements phrase hr⟩

theorem BlockCut.whole (h : BlockCut env E R kept dropped brace) :
    Braced (Statement env E Nothing) R (kept ++ dropped) := by
  induction h with
  | statements hl statements closing => exact .mk hl (closing.prepend statements)
  | last hl statements last hr =>
    rw [List.cons_append, List.append_assoc]
    exact .mk hl (.mk statements (.some last) hr)
  | @deferred R l k brace seg kept dropped rest body hl statements hk _ closing ih =>
    obtain ⟨t, hbody⟩ := ih.body
    have hdeferred : Statement env E Nothing (k :: (kept ++ dropped))
        (.node default k (.deferred t.root) [t]) := .deferred hk hbody
    have hone := statements.snoc hdeferred
    have hall : l :: (seg ++ k :: kept) ++ (dropped ++ rest) =
        l :: ((seg ++ k :: (kept ++ dropped)) ++ rest) := by simp
    rw [hall]
    exact .mk hl (closing.prepend hone)

theorem DeclarationsCut.whole (h : DeclarationsCut env E l kept dropped brace) :
    ∃ ts, Repeated (Declaration env E Nothing) (kept ++ dropped) ts := by
  cases h with
  | behind declared more => exact ⟨_, declared.append more⟩
  | @method seg head kept dropped rest body others t brace declared signature block more =>
    obtain ⟨u, hblock⟩ := block.whole.block
    have hmethod : Method env E Nothing (head ++ (kept ++ dropped))
        (.node default t.token (.method t.root u.root) [t, u]) := .mk signature hblock
    have hone := declared.snoc (.method hmethod)
    have hall : seg ++ (head ++ kept) ++ (dropped ++ rest) =
        (seg ++ (head ++ (kept ++ dropped))) ++ rest := by simp
    rw [hall]
    exact ⟨_, hone.append more⟩

theorem ApiCut.whole (h : ApiCut env E kept dropped brace) :
    ∃ t, Api env E Nothing (kept ++ dropped) t := by
  cases h with
  | @mk k t l r brace inner outer kept dropped inside others hk ht within withApis hl declarations
      hr =>
    obtain ⟨ts, hdeclared⟩ := declarations.whole
    have hall : k :: t :: (inner ++ (outer ++ l :: kept)) ++ (dropped ++ [r]) =
        k :: t :: (inner ++ (outer ++ l :: ((kept ++ dropped) ++ [r]))) := by simp
    rw [hall]
    exact ⟨.node default _ _ (typeLeaf env default t :: _),
      .mk hk ht within withApis hl hdeclared hr⟩

/-- What is kept and what is dropped are a program. -/
theorem ProgramCut.whole (h : ProgramCut env E kept dropped brace) :
    ∃ t, Program env E Nothing (kept ++ dropped) t := by
  cases h with
  | @mk seg kept dropped rest apis others brace declared cut more =>
    obtain ⟨t, hapi⟩ := cut.whole
    have hall : seg ++ kept ++ (dropped ++ rest) = (seg ++ (kept ++ dropped)) ++ rest := by simp
    rw [hall]
    exact ⟨.node default _ _ _, .mk ((declared.snoc hapi).append more)⟩

/-- What is kept has no sign in front of an annotation. -/
theorem ProgramCut.signFree (hE : ∀ seg t, E seg t → SignFree seg)
    (h : ProgramCut env E kept dropped brace) : SignFree kept := by
  obtain ⟨t, hwhole⟩ := h.whole
  cases hwhole with
  | mk declared =>
    have hall := declared.signFree fun _ _ => Api.signFree hE
    exact fun t ht => hall t (List.mem_append_left _ ht)

end Language

/-! ## Blocks -/

namespace Grammar

open ApiSyntax.Language ApiSyntax.Parser ApiSyntax.Production

variable {S : Setting} {env : ParserEnv} {read : Production → Parser NodeId} {E R : Phrase}
  {m n k : Nat} {s : ParserState} {seg kept dropped rest : List Token} {brace : Token}
  {opened : Span} {b : BlockSoFar} {body : List NodeId} {d : Diagnostic}

theorem blockRound_ended (hrest : s.cursor.rest = []) :
    Refuses (blockRound read opened b) env s (unclosedBlock opened) := by
  refine .remaining ?_
  rw [hrest]
  exact .fail

/-- The failure of a statement is that of the round. -/
theorem blockRound_refuses {t : Token} {tail : List Token} (ht : StatementStart t)
    (hhead : s.cursor.rest = t :: tail) (hb : Unreturned b)
    (h : Refuses (statement read) env s d) : Refuses (blockRound read opened b) env s d := by
  refine .remaining ?_
  rw [hhead, List.head?_cons]
  have hret : ¬ b.ret.isSome = true := by simp [show b.ret = none from hb]
  dsimp only
  rw [if_neg (by simp [ht.is_rbrace]), if_neg hret, if_neg (by simp [ht.isValue_return])]
  exact h.bind

/-- Where the keyword of a deferred block stands no other statement applies. -/
theorem filter_deferred {t : Token} (ht : t.isValue .keyword "defer") :
    statements.filter (applies (t :: rest)) = [.deferred] := by
  simp [statements, applies, trigger, startsWith, startsWithPair, startsWithKeyword,
    Token.is_of_is (is_of_isValue ht), ht, TokenKind.same, TokenKind.name]

/-- A block that is cut is refused at the innermost open brace. -/
def RefusesBlock (S : Setting) (env : ParserEnv) (E : Phrase) (x : Parser NodeId) (n : Nat) : Prop :=
  ∀ R kept dropped brace, BlockCut env E R kept dropped brace →
    (∀ seg t, R seg t → Return E seg t) → kept.length ≤ n → ∀ s, S.Fits s → s.cursor.rest = kept →
      Refuses x env s (unclosedBlock brace.span)

/-- So is a deferred statement with such a block. -/
def RefusesDeferred (S : Setting) (env : ParserEnv) (E : Phrase) (x : Parser NodeId) (n : Nat) :
    Prop :=
  ∀ k kept dropped brace, k.isValue .keyword "defer" → BlockCut env E Nothing kept dropped brace →
    (k :: kept).length ≤ n → ∀ s, S.Fits s → s.cursor.rest = k :: kept →
      Refuses x env s (unclosedBlock brace.span)

theorem statement_refuses (hblock : RefusesBlock S env E (read .block) n) :
    RefusesDeferred S env E (statement (step read)) (n + 1) := by
  intro k kept dropped brace hk hcut hn s hs hrest
  rw [List.length_cons] at hn
  have hone : statements.filter (applies s.cursor.rest) = [.deferred] := by
    rw [hrest]
    exact filter_deferred hk
  refine choice_refuses hone ?_
  refine (expectKeyword_accepts hs hrest hk).bind_refuses fun _ s₁ hs₁ hrest₁ _ => ?_
  exact (hblock _ kept dropped brace hcut (fun _ _ h => h.elim) (by omega) s₁ hs₁ hrest₁).bind

theorem block_refuses
    (hstatement : Complete S env (statement read) (Statement env E Nothing) n ExpressionEnd)
    (hreturned : Complete S env (read .returned) (Return E) m ExpressionEnd)
    (hdeferred : RefusesDeferred S env E (statement read) n) (hn : k ≤ n + 1) (hm : k ≤ m + 1) :
    RefusesBlock S env E (block read) k := by
  intro R kept dropped brace hcut hR hk s hs hrest
  -- The brace is read, then complete statements, and the loop fails behind them.
  have hloop : ∀ {l : Token} {seg tail : List Token} {body : List Tree} (j : Nat),
      l.is .lbrace → Repeated (Statement env E Nothing) seg body → seg.length ≤ n →
      ExpressionEnd tail → j ≤ tail.length + 1 → s.cursor.rest = l :: (seg ++ tail) →
      (∀ b s fuel, S.Fits s → s.cursor.rest = tail → j ≤ fuel → Unreturned b →
        Refuses (loopN (blockRound read l.span) fuel b) env s (unclosedBlock brace.span)) →
      Refuses (block read) env s (unclosedBlock brace.span) := by
    intro l seg tail body j hl statements hseg htail hj hrest hend
    refine (expect_accepts hs hrest hl).bind_refuses fun opening s₁ hs₁ hrest₁ hopening => ?_
    subst hopening
    refine (Refuses.inPhase (loop_refuses ?_)).bind
    exact blockRounds_induct (W := fun fuel b s =>
      Refuses (loopN (blockRound read opening.span) fuel b) env s (unclosedBlock brace.span))
      hstatement statements hseg htail (fun _ _ _ _ => loopN_more_refuses) hend
      ⟨hs₁.tables, hs₁.tokens⟩ hrest₁ hj
  cases hcut with
  | statements hl statements _ =>
    rw [List.length_cons] at hk
    refine hloop 1 hl statements (by omega) stops_nil (by simp) (by rw [hrest, List.append_nil]) ?_
    intro b s fuel hs hrest hfuel hb
    obtain ⟨fuel, rfl⟩ : ∃ m, fuel = m + 1 := ⟨fuel - 1, by omega⟩
    exact loopN_refuses (blockRound_ended hrest)
  | last hl statements last _ =>
    rw [List.length_cons, List.length_append] at hk
    have hlast := hR _ _ last
    cases hlast with
    | mk hword value =>
      rw [List.length_cons] at hk
      refine hloop 2 hl statements (by omega) (stops_of_is (is_of_isValue hword) (by decide))
        (by simp) hrest ?_
      intro b s fuel hs hrest hfuel hb
      obtain ⟨fuel, rfl⟩ : ∃ m, fuel = m + 2 := ⟨fuel - 2, by omega⟩
      have hlast : Return E _ (.node default _ _ [_]) := .mk hword value
      have hread := hreturned _ _ hlast
        (by rw [List.length_cons]; omega) s [] hs (by rw [hrest, List.append_nil]) stops_nil
      refine loopN_more_refuses (blockRound_return hword hrest hb hread) fun b' s' _ hrest' _ => ?_
      exact loopN_refuses (blockRound_ended hrest')
  | deferred hl statements hword block _ =>
    rw [List.length_cons, List.length_append] at hk
    refine hloop 1 hl statements (by omega) (stops_of_is (is_of_isValue hword) (by decide))
      (by simp) hrest ?_
    intro b s fuel hs hrest hfuel hb
    obtain ⟨fuel, rfl⟩ : ∃ m, fuel = m + 1 := ⟨fuel - 1, by omega⟩
    have hread := hdeferred _ _ _ brace hword block (by omega) s hs hrest
    exact loopN_refuses (blockRound_refuses (.inr (.inr hword)) hrest hb hread)

/-! ## Methods and APIs -/

/-- A method that is cut in its block is refused at the innermost open brace. -/
def RefusesMethod (S : Setting) (env : ParserEnv) (E : Phrase) (x : Parser NodeId) (n : Nat) :
    Prop :=
  ∀ head t kept dropped brace, Signature env head t →
    BlockCut env E (Return E) kept dropped brace → (head ++ kept).length ≤ n → ∀ s, S.Fits s →
      s.cursor.rest = head ++ kept → Refuses x env s (unclosedBlock brace.span)

/-- So is an API that is cut in its body. -/
def RefusesApi (S : Setting) (env : ParserEnv) (E : Phrase) (x : Parser NodeId) (n : Nat) : Prop :=
  ∀ kept dropped brace, ApiCut env E kept dropped brace → kept.length ≤ n → ∀ s, S.Fits s →
    s.cursor.rest = kept → Refuses x env s (unclosedBlock brace.span)

theorem BlockCut.starts (h : BlockCut env E R kept dropped brace) :
    ∃ l tail, kept = l :: tail ∧ l.is .lbrace := by
  cases h with
  | statements hl => exact ⟨_, _, rfl, hl⟩
  | last hl => exact ⟨_, _, rfl, hl⟩
  | deferred hl => exact ⟨_, _, rfl, hl⟩

theorem declaration_refuses
    (hsignature : Complete S env (read .signature) (Signature env) n (Stops [.lparen]))
    (hblock : RefusesBlock S env E (read .block) n) :
    RefusesMethod S env E (declaration (step read)) (n + 1) := by
  intro head t kept dropped brace signature hcut hn s hs hrest
  rw [List.length_append] at hn
  obtain ⟨l, tail, rfl, hl⟩ := BlockCut.starts hcut
  have hhead : 0 < head.length := List.length_pos_iff.mpr (signature_starts.ne_nil signature)
  rw [List.length_cons] at hn
  have hone : declarations.filter (applies s.cursor.rest) = [.method] := by
    obtain ⟨a, u, inner, rfl, ha, hu⟩ := second_of_signature signature
    rw [hrest]
    exact filter_method ha hu
  refine choice_refuses hone (.startToken ?_)
  refine (hsignature head t signature (by omega) s _ hs hrest
    (stops_of_is hl (by decide))).bind_refuses fun _ s₁ hs₁ hrest₁ _ => ?_
  exact (hblock _ _ dropped brace hcut (fun _ _ h => h) (by rw [List.length_cons]; omega) s₁ hs₁
    hrest₁).bind

theorem apiRound_ended (hrest : s.cursor.rest = []) :
    Refuses (apiRound read opened body) env s (unclosedBlock opened) := by
  refine .remaining ?_
  rw [hrest]
  exact .fail

/-- The failure of a declaration is that of the round. -/
theorem apiRound_refuses {t : Token} {tail : List Token} (ht : t.is .rbrace = false)
    (hhead : s.cursor.rest = t :: tail) (h : Refuses (declaration read) env s d) :
    Refuses (apiRound read opened body) env s d := by
  refine .remaining ?_
  rw [hhead, List.head?_cons]
  dsimp only
  rw [if_neg (by simp [ht])]
  exact h.bind

theorem declarations_refuse {l : Token}
    (hdeclaration : Complete S env (declaration read) (Declaration env E Nothing) m
      (DeclarationEnd env m))
    (hmethod : RefusesMethod S env E (declaration read) n)
    (hcut : DeclarationsCut env E l kept dropped brace) (hm : kept.length ≤ m)
    (hn : kept.length ≤ n) (hs : S.Fits s)
    (hrest : s.cursor.rest = kept) :
    Refuses (loop (apiRound read l.span) []) env s (unclosedBlock brace.span) := by
  refine loop_refuses ?_
  cases hcut with
  | behind declared _ =>
    refine apiRounds_induct (W := fun fuel body s =>
      Refuses (loopN (apiRound read brace.span) fuel body) env s (unclosedBlock brace.span))
      hdeclaration declared hm .ended (fun _ _ _ _ => loopN_more_refuses) ?_ hs
      (by rw [hrest, List.append_nil])
    intro body s fuel _ hrest hfuel _
    obtain ⟨fuel, rfl⟩ : ∃ m, fuel = m + 1 := ⟨fuel - 1, by omega⟩
    exact loopN_refuses (apiRound_ended hrest)
  | method declared signature block _ =>
    rw [List.length_append, List.length_append] at hm hn
    refine apiRounds_induct (W := fun fuel body s =>
      Refuses (loopN (apiRound read l.span) fuel body) env s (unclosedBlock brace.span))
      hdeclaration declared (by omega) (.method signature (by omega))
      (fun _ _ _ _ => loopN_more_refuses) ?_ hs hrest
    intro body s fuel hs hrest hfuel _
    obtain ⟨fuel, rfl⟩ : ∃ m, fuel = m + 1 := ⟨fuel - 1, by omega⟩
    have hread := hmethod _ _ _ _ brace signature block (by rw [List.length_append]; omega) s hs hrest
    obtain ⟨a, u, inner, rfl, ha, _⟩ := second_of_signature signature
    exact loopN_refuses (apiRound_refuses (Token.is_of_is ha _) hrest hread)

theorem api_refuses (hsound : Sound S env E Nothing read) (h : Covers S env E read (n + 1))
    (hmethod : RefusesMethod S env E (declaration read) n) :
    RefusesApi S env E (api read) (n + 1) := by
  intro kept dropped brace hcut hn s hs hrest
  cases hcut with
  | mk hk ht within withApis hl declarations _ =>
    simp only [List.length_cons, List.length_append] at hn
    refine (api_leads hsound.within hsound.withApis h.within h.withApis h.withinFails h.withFails
      hk ht within withApis hl (by omega) (by omega) (by omega) hs hrest).refuses
      fun y s₁ hs₁ hrest₁ hy => ?_
    obtain ⟨name, inside, others, rfl⟩ := hy
    have hbody : Refuses (inPhase .declaration (loop (apiRound read _) [])) env s₁
        (unclosedBlock brace.span) :=
      .inPhase (declarations_refuse h.declaration hmethod declarations (by omega) (by omega)
        ⟨hs₁.tables, hs₁.tokens⟩ hrest₁)
    exact hbody.bind

/-! ## The knot -/

/-- What is cut is refused by the productions, read on a bound. -/
structure RefusesCuts (S : Setting) (env : ParserEnv) (E : Phrase)
    (read : Production → Parser NodeId) (n : Nat) : Prop where
  block : RefusesBlock S env E (read .block) n
  deferred : RefusesDeferred S env E (statement read) n
  method : RefusesMethod S env E (declaration read) n
  api : RefusesApi S env E (read .api) n

theorem refusesCuts_zero : RefusesCuts S env E read 0 where
  block R kept dropped brace hcut _ hn := by
    obtain ⟨l, tail, rfl, _⟩ := BlockCut.starts hcut
    exact absurd hn (by simp)
  deferred k kept dropped brace _ _ hn := absurd hn (by simp)
  method head t kept dropped brace _ hcut hn := by
    obtain ⟨l, tail, rfl, _⟩ := BlockCut.starts hcut
    exact absurd hn (by simp)
  api kept dropped brace hcut hn := by
    cases hcut
    exact absurd hn (by simp)

theorem RefusesCuts.step (h : RefusesCuts S env E read n) (hsound : Sound S env E Nothing read)
    (hcovers : Covers S env E read (n + 1)) : RefusesCuts S env E (step read) (n + 1) where
  block := block_refuses (hcovers.statement.mono (Nat.le_succ n)) hcovers.returned h.deferred
    (Nat.le_refl _) (Nat.le_refl _)
  deferred := statement_refuses h.block
  method := declaration_refuses (hcovers.signature.mono (Nat.le_succ n)) h.block
  api := api_refuses hsound hcovers h.method

/-- What is cut is refused, given what is accepted. -/
theorem refusesCuts_readN (hsound : ∀ depth, Sound S env E Nothing (readN depth))
    (hcovers : ∀ depth, Covers S env E (readN depth) depth) (depth : Nat) :
    RefusesCuts S env E (readN (depth + 1)) depth := by
  induction depth with
  | zero => exact refusesCuts_zero
  | succ depth ih => exact ih.step (hsound (depth + 1)) (hcovers (depth + 1))

/-! ## Programs -/

theorem executeRound_refuses {ids : List NodeId} (hapi : RefusesApi S env E (read .api) n)
    (hcut : ApiCut env E kept dropped brace) (hn : kept.length ≤ n) (hs : S.Fits s)
    (hrest : s.cursor.rest = kept) :
    Refuses (executeRound (topLevel read) ids) env s (unclosedBlock brace.span) := by
  have hread : ∀ s', S.Fits s' → s'.cursor.rest = kept →
      Refuses (read .api) env s' (unclosedBlock brace.span) :=
    fun s' hs' hrest' => hapi kept dropped brace hcut hn s' hs' hrest'
  cases hcut with
  | mk hk =>
    refine .remaining ?_
    rw [hrest]
    simp only [topLevel_filter hk]
    exact .note hs hrest fun s₁ hs₁ hrest₁ => (hread s₁ hs₁ hrest₁).bind

theorem program_refuses (hapi : Complete S env (read .api) (Api env E Nothing) n anyEnd)
    (hcut : RefusesApi S env E (read .api) n) (h : ProgramCut env E kept dropped brace)
    (hn : kept.length ≤ n) (hs : S.Fits s) (hrest : s.cursor.rest = kept) :
    Refuses (program read) env s (unclosedBlock brace.span) := by
  refine .startToken ?_
  have hparts : Refuses (inPhase .program (execute (topLevel read))) env s
      (unclosedBlock brace.span) := by
    refine .inPhase (loop_refuses ?_)
    cases h with
    | mk declared cut _ =>
      rw [List.length_append] at hn
      refine loopN_induct (k := 1) (J := fun _ => True) (F := anyEnd) (W := fun fuel ids s =>
        Refuses (loopN (executeRound (topLevel read)) fuel ids) env s (unclosedBlock brace.span))
        declared (Nat.le_trans (Nat.le_add_right _ _) hn) (fun _ _ => api_ne_nil)
        (fun _ _ _ _ _ _ => trivial) trivial ?_ (fun _ _ _ _ => loopN_more_refuses) ?_
        ⟨hs.tables, hs.tokens⟩ hrest ?_ trivial
      · intro ids s seg t rest ht hseg hs hrest _ _
        exact executeRound_api hapi ht hseg hs hrest
      · intro ids s fuel hs hrest hfuel _
        obtain ⟨fuel, rfl⟩ : ∃ m, fuel = m + 1 := ⟨fuel - 1, by omega⟩
        exact loopN_refuses (executeRound_refuses hcut cut (by omega) hs hrest)
      · rw [hrest, List.length_append]
        omega
  exact hparts.bind

end Grammar

/-! ## Whole inputs -/

open ApiSyntax.Grammar ApiSyntax.Language

variable {env : ParserEnv} {table : OperatorTable} {kept dropped : List Token} {brace : Token}

/-- A program is cut where a block stands open: behind its brace, or behind a complete declaration,
statement or return statement in it.  What is kept fails as an unclosed block, and both the place of
the failure and the place that it names are those of the innermost brace that is still open. -/
theorem program_unclosed (h : ProgramCut env (Expression env table) kept dropped brace) :
    (∃ t, Program env (Expression env table) Nothing (kept ++ dropped) t) ∧
      ∃ d, (Goal.program.parse env (.start kept table)).1 = .error (.failed d) ∧
        d.cause = .unclosedBlock brace.span ∧ d.span = some brace.span := by
  refine ⟨h.whole, unclosedBlock brace.span, ?_, rfl, rfl⟩
  have hplain : ∀ t ∈ kept, t.is .annotationSign = false :=
    h.signFree fun _ _ => Expression.signFree
  have hcovers : Covers (.plain table) env (Expression env table)
      (readN (4 * kept.length + 7)) (4 * kept.length + 7) := covers_plain _
  have hcuts : RefusesCuts (.plain table) env (Expression env table)
      (readN (4 * kept.length + 7)) (4 * kept.length + 6) :=
    refusesCuts_readN sound_plain covers_plain _
  have hread : Refuses (program (readN (4 * kept.length + 7))) env (.start kept table)
      (unclosedBlock brace.span) :=
    program_refuses (hcovers.api.mono (Nat.le_succ _)) hcuts.api h (by omega) (plain_fits hplain) rfl
  exact hread.result

/-- A token in the first line. -/
def inFirstLine (kind : TokenKind) (value : String) (column : Nat) : Token :=
  ⟨kind, value, ⟨0, column, column⟩⟩

/-- An API, a method and a deferred block, all of them open. -/
def openDefer : List Token :=
  [inFirstLine .keyword "api" 0, inFirstLine .typeIdentifier "A" 4, inFirstLine .lbrace "\x7b" 6,
    inFirstLine .lparen "(" 8, inFirstLine .typeIdentifier "T" 9, inFirstLine .rparen ")" 10,
    inFirstLine .identifier "f" 12, inFirstLine .lparen "(" 13, inFirstLine .rparen ")" 14,
    inFirstLine .lbrace "\x7b" 16, inFirstLine .keyword "defer" 18, inFirstLine .lbrace "\x7b" 24]

/-- The braces that they lack. -/
def missingBraces : List Token :=
  [inFirstLine .rbrace "\x7d" 26, inFirstLine .rbrace "\x7d" 28, inFirstLine .rbrace "\x7d" 30]

theorem program_unclosed_openDefer :
    ProgramCut .standard (Expression .standard .builtin) openDefer missingBraces
        (inFirstLine .lbrace "\x7b" 24) ∧
      ∃ d, (Goal.program.parse .standard (.start openDefer .builtin)).1 = .error (.failed d) ∧
        d.cause = .unclosedBlock ⟨0, 24, 24⟩ := by
  have hinner : BlockCut .standard (Expression .standard .builtin) Nothing
      [inFirstLine .lbrace "\x7b" 24] [inFirstLine .rbrace "\x7d" 26]
      (inFirstLine .lbrace "\x7b" 24) :=
    .statements rfl .none (.mk .none .none rfl)
  have houter : BlockCut .standard (Expression .standard .builtin)
      (Return (Expression .standard .builtin)) (openDefer.drop 9) (missingBraces.take 2)
      (inFirstLine .lbrace "\x7b" 24) :=
    .deferred rfl .none rfl hinner (.mk .none .none rfl)
  have hreceiver : Typing .standard [inFirstLine .typeIdentifier "T" 9]
      (typeLeaf .standard default _) := .named (.mk rfl)
  have hsignature : Signature .standard ((openDefer.drop 3).take 6) (.node default _ _
      (_ :: nameLeaf default (inFirstLine .identifier "f" 12) :: _)) :=
    .mk rfl (.static hreceiver) rfl rfl (.none rfl rfl) .omitted
  have hcut : ProgramCut .standard (Expression .standard .builtin) openDefer missingBraces
      (inFirstLine .lbrace "\x7b" 24) :=
    .mk .none (.mk rfl rfl .none .none rfl (.method .none hsignature houter .none) rfl) .none
  obtain ⟨_, d, hfails, hcause, _⟩ := program_unclosed hcut
  exact ⟨hcut, d, hfails, hcause⟩

end ApiSyntax
