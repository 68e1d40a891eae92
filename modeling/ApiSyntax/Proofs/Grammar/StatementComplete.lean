/-
  ApiSyntax/Proofs/Grammar/StatementComplete.lean --- statements of the language are read.

  Two tokens tell the statements apart.  What comes behind a statement starts another
  one, returns, or closes the block, so it never goes on with the expression that the
  statement ends with.  No annotations are met here.
-/
import ApiSyntax.Proofs.Grammar.ExpressionComplete
import ApiSyntax.Proofs.Grammar.ProgramSound

set_option autoImplicit false

namespace ApiSyntax.Grammar

open ApiSyntax.Language ApiSyntax.Parser ApiSyntax.Production

variable {S : Setting} {env : ParserEnv} {read : Production → Parser NodeId} {E : Phrase}
  {m n k : Nat} {s : ParserState} {seg rest : List Token}

/-- No tokens are an annotation. -/
def Nothing : Phrase := fun _ _ => False

/-! ## How statements start -/

/-- The first token of a statement. -/
def StatementStart (t : Token) : Prop :=
  t.is .identifier ∨ t.is .typeIdentifier ∨ t.isValue .keyword "defer"

theorem is_of_isValue {t : Token} {kind : TokenKind} {value : String} (h : t.isValue kind value) :
    t.is kind := (Bool.and_eq_true_iff.mp h).1

/-- A token that reads one word does not read another. -/
theorem isValue_of_other {t : Token} {kind : TokenKind} {value other : String}
    (h : t.isValue kind value) (hother : value ≠ other) : t.isValue kind other = false := by
  have hvalue : t.value = value := beq_iff_eq.mp (Bool.and_eq_true_iff.mp h).2
  have hdiffers : (t.value == other) = false := by
    rw [hvalue]
    exact beq_false_of_ne hother
  rw [Token.isValue, hdiffers, Bool.and_false]

/-- A token of another kind is no keyword. -/
theorem isValue_of_is {t : Token} {kind other : TokenKind} {value : String} (h : t.is kind)
    (hother : kind.same other = false) : t.isValue other value = false := by
  rw [Token.isValue, Token.is_of_is h, hother, Bool.false_and]

theorem statement_start {t : Tree} (h : Statement env E Nothing seg t) :
    ∃ a tail, seg = a :: tail ∧ StatementStart a := by
  cases h with
  | assignment hname => exact ⟨_, _, rfl, .inl hname⟩
  | deferred hk => exact ⟨_, _, rfl, .inr (.inr hk)⟩
  | call call =>
    cases call with
    | mk ht => exact ⟨_, _, rfl, .inl ht⟩
  | static call =>
    cases call with
    | mk ht => exact ⟨_, _, rfl, .inr (.inl ht)⟩
  | annotated phrase => exact phrase.elim

theorem StatementStart.is_rbrace {t : Token} (h : StatementStart t) : t.is .rbrace = false := by
  rcases h with h | h | h
  · exact Token.is_of_is h _
  · exact Token.is_of_is h _
  · exact Token.is_of_is (is_of_isValue h) _

theorem StatementStart.isValue_return {t : Token} (h : StatementStart t) :
    t.isValue .keyword "return" = false := by
  rcases h with h | h | h
  · exact isValue_of_is h rfl
  · exact isValue_of_is h rfl
  · exact isValue_of_other h (by decide)

/-- A statement does not go on with an expression in front of it. -/
theorem StatementStart.expressionEnd {t : Token} (h : StatementStart t) :
    ExpressionEnd (t :: rest) := by
  rcases h with h | h | h
  · exact stops_of_is h (by decide)
  · exact stops_of_is h (by decide)
  · exact stops_of_is (is_of_isValue h) (by decide)

/-! ## The choice of a statement -/

section Choice

variable {t u : Token}

-- Which production is chosen is computed from the first tokens.
attribute [local simp] statements applies trigger startsWith startsWithPair startsWithKeyword
  TokenKind.same TokenKind.name

theorem find_assignment (ht : t.is .identifier)
    (hu : u.is .assign ∨ u.is .typeIdentifier ∨ u.is .lbracket) :
    statements.find? (applies (t :: u :: rest)) = some .assignment := by
  rcases hu with hu | hu | hu <;>
    simp [Token.is_of_is ht, Token.is_of_is hu]

theorem find_deferred (ht : t.isValue .keyword "defer") :
    statements.find? (applies (t :: rest)) = some .deferred := by
  simp [Token.is_of_is (is_of_isValue ht), ht]

theorem find_call (ht : t.is .identifier) (hu : u.is .dot) :
    statements.find? (applies (t :: u :: rest)) = some .instanceCall := by
  simp [Token.is_of_is ht, Token.is_of_is hu, Token.isValue]

theorem find_static (ht : t.is .typeIdentifier) (hu : u.is .dot) :
    statements.find? (applies (t :: u :: rest)) = some .staticCall := by
  simp [Token.is_of_is ht, Token.is_of_is hu, Token.isValue]

end Choice

/-! ## Statements -/

/-- A name, possibly a type, and a value. -/
theorem assignment_accepts {name eq : Token} {inner : List Token} {ty : Option Tree} {v : Tree}
    (htype : Complete S env (read .type) (Typing env) m anyEnd)
    (hread : Complete S env (read .expression) E n ExpressionEnd) (hname : name.is .identifier)
    (typing : Optional (Typing env) seg ty) (heq : eq.is .assign) (value : E inner v)
    (hm : seg.length ≤ m) (hn : inner.length ≤ n) (hend : ExpressionEnd rest) (hs : S.Fits s)
    (hrest : s.cursor.rest = name :: (seg ++ eq :: (inner ++ rest))) :
    Accepts S (assignment read) env s rest AnyResult := by
  rw [assignment]
  refine .startToken ?_
  refine (identifier_accepts hs hrest hname).bind fun _ s₁ hs₁ hrest₁ _ => ?_
  have htyping : Accepts S (do if ← check .assign then return none else return some (← read .type))
      env s₁ (eq :: (inner ++ rest)) AnyResult := by
    cases typing with
    | none => exact .check (check_of_rest hrest₁ heq) (.pure hs₁ hrest₁ trivial)
    | some ty =>
      have hother : s₁.cursor.check .assign = false := by
        have hstops : Stops [.assign] (seg ++ eq :: (inner ++ rest)) :=
          typing_starts.stops ty (by decide)
        exact (hrest₁ ▸ hstops).check (by simp)
      refine .check hother ?_
      refine (htype seg _ ty hm s₁ _ hs₁ hrest₁ trivial).bind fun _ s₂ hs₂ hrest₂ _ => ?_
      exact .pure hs₂ hrest₂ trivial
  refine htyping.bind fun _ s₂ hs₂ hrest₂ _ => ?_
  refine (expect_accepts hs₂ hrest₂ heq).bind fun _ s₃ hs₃ hrest₃ _ => ?_
  refine (hread inner v value hn s₃ rest hs₃ hrest₃ hend).bind fun _ s₄ hs₄ hrest₄ _ => ?_
  exact (alloc_accepts hs₄ hrest₄).any

theorem returned_complete (hread : Complete S env (read .expression) E n ExpressionEnd) :
    Complete S env (returned read) (Return E) (n + 1) ExpressionEnd := by
  intro seg t ht hn s rest hs hrest hend
  rw [returned]
  cases ht with
  | mk hk value =>
    rw [List.length_cons] at hn
    refine (expectKeyword_accepts hs hrest hk).bind fun _ s₁ hs₁ hrest₁ _ => ?_
    refine (hread _ _ value (by omega) s₁ rest hs₁ hrest₁ hend).bind fun _ s₂ hs₂ hrest₂ _ => ?_
    exact (alloc_accepts hs₂ hrest₂).any

/-- A block without a return statement is read, and its node has none. -/
def ReadsBody (S : Setting) (env : ParserEnv) (x : Parser NodeId) (G : Phrase) (n : Nat) : Prop :=
  ∀ seg t, Body G seg t → seg.length ≤ n → ∀ s rest, S.Fits s → s.cursor.rest = seg ++ rest →
    Accepts S x env s rest fun id s' => ∃ body, s'.work.arena.expr id = .ok (.block body none)

/-- A deferred block is one without a return statement. -/
theorem deferred_accepts {G : Phrase} {word : Token} {t : Tree}
    (hbody : ReadsBody S env (read .block) G m) (hword : word.isValue .keyword "defer")
    (body : Body G seg t) (hm : seg.length ≤ m) (hs : S.Fits s)
    (hrest : s.cursor.rest = word :: (seg ++ rest)) :
    Accepts S (deferred read) env s rest AnyResult := by
  refine (expectKeyword_accepts hs hrest hword).bind fun _ s₁ hs₁ hrest₁ _ => ?_
  refine (hbody seg t body hm s₁ rest hs₁ hrest₁).bind fun id s₂ hs₂ hrest₂ hblock => ?_
  obtain ⟨inner, hexpr⟩ := hblock
  exact .atArena hexpr (alloc_accepts hs₂ hrest₂).any

theorem statement_complete (hstart : Starts expressionStarts E)
    (hsound : Reads S env (read .expression) (One E))
    (htype : Complete S env (read .type) (Typing env) m anyEnd)
    (hread : Complete S env (read .expression) E n ExpressionEnd)
    (hbody : ReadsBody S env (read .block) (Statement env E Nothing) m)
    (hm : k ≤ m + 1) (hn : k ≤ n + 2) :
    Complete S env (statement (step read)) (Statement env E Nothing) k ExpressionEnd := by
  intro seg t ht hk s rest hs hrest hend
  have hoff : OperandEnd rest := hend.subset (by simp)
  have hchosen : ∀ p, statements.find? (applies s.cursor.rest) = some p →
      Accepts S (step read p) env s rest AnyResult →
        Accepts S (statement (step read)) env s rest AnyResult :=
    fun p hfind h => choice_accepts hfind h
  cases ht with
  | @assignment name eq seg inner ty v id nid hname typing heq value =>
    rw [List.length_cons, List.length_append, List.length_cons] at hk
    rw [List.cons_append, List.append_assoc, List.cons_append] at hrest
    refine hchosen .assignment ?_ (assignment_accepts htype hread hname typing heq value (by omega)
      (by omega) hend hs hrest)
    rw [hrest]
    cases typing with
    | none => exact find_assignment hname (.inl heq)
    | some ty =>
      obtain ⟨a, tail, rfl, kind, hkind, ha⟩ := typing_starts _ _ ty
      simp only [List.mem_cons, List.not_mem_nil, or_false] at hkind
      rcases hkind with rfl | rfl
      · exact find_assignment hname (.inr (.inl ha))
      · exact find_assignment hname (.inr (.inr ha))
  | deferred hword body =>
    rw [List.length_cons] at hk
    rw [List.cons_append] at hrest
    refine hchosen .deferred ?_ (deferred_accepts hbody hword body (by omega) hs hrest)
    rw [hrest]
    exact find_deferred hword
  | call call =>
    refine hchosen .instanceCall ?_
      (instanceCall_complete hsound hread hstart _ _ call (by omega) s rest hs hrest hoff)
    cases call with
    | mk ht first =>
      cases first with
      | mk hdot =>
        rw [hrest]
        exact find_call ht hdot
  | static call =>
    refine hchosen .staticCall ?_
      (staticCall_complete hsound hread hstart _ _ call (by omega) s rest hs hrest hoff)
    cases call with
    | mk ht hdot =>
      rw [hrest]
      exact find_static ht hdot
  | annotated phrase => exact phrase.elim

/-! ## Blocks -/

section Blocks

variable {opened : Span} {b : BlockSoFar} {P : NodeId → ParserState → Prop} {fuel : Nat}

/-- The block has no return statement so far. -/
def Unreturned (b : BlockSoFar) : Prop := b.ret = none

/-- What a round that does not close the block reads is a return statement or a statement. -/
theorem blockRound_statement {t : Token} {tail : List Token} (ht : StatementStart t)
    (hhead : s.cursor.rest = t :: tail) (hb : Unreturned b)
    (h : Accepts S (statement read) env s rest AnyResult) :
    Accepts S (blockRound read opened b) env s rest (Continues fun b' _ => Unreturned b') := by
  refine .remaining ?_
  rw [hhead, List.head?_cons]
  have hret : ¬ b.ret.isSome = true := by simp [show b.ret = none from hb]
  dsimp only
  rw [if_neg (by simp [ht.is_rbrace]), if_neg hret, if_neg (by simp [ht.isValue_return])]
  exact h.bind fun id s' hs' hrest' _ => .pure hs' hrest' hb

theorem blockRound_return {t : Token} {tail : List Token} (ht : t.isValue .keyword "return")
    (hhead : s.cursor.rest = t :: tail) (hb : Unreturned b)
    (h : Accepts S (read .returned) env s rest AnyResult) :
    Accepts S (blockRound read opened b) env s rest (Continues AnyResult) := by
  refine .remaining ?_
  rw [hhead, List.head?_cons]
  have hbrace : t.is .rbrace = false := Token.is_of_is (is_of_isValue ht) _
  have hret : ¬ b.ret.isSome = true := by simp [show b.ret = none from hb]
  dsimp only
  rw [if_neg (by simp [hbrace]), if_neg hret, if_pos ht]
  exact h.bind fun id s' hs' hrest' _ => .pure hs' hrest' trivial

theorem blockRound_close {r : Token} (hr : r.is .rbrace) (hs : S.Fits s)
    (hrest : s.cursor.rest = r :: rest) :
    Accepts S (blockRound read opened b) env s rest (Ends fun b' _ => b' = b) := by
  refine .remaining ?_
  rw [hrest, List.head?_cons]
  dsimp only
  rw [if_pos hr]
  exact (consume_accepts hs hrest).bind fun _ s' hs' hrest' _ => .pure hs' hrest' rfl

/-- The rounds of a block over its statements: what holds of the loop behind them holds ahead of
them. -/
theorem blockRounds_induct {body : List Tree} {tail : List Token}
    {W : Nat → BlockSoFar → ParserState → Prop}
    (hstatement : Complete S env (statement read) (Statement env E Nothing) n ExpressionEnd)
    (h : Repeated (Statement env E Nothing) seg body) (hn : seg.length ≤ n)
    (htail : ExpressionEnd tail)
    (hround : ∀ fuel b s mid,
      Accepts S (blockRound read opened b) env s mid (Continues fun b' _ => Unreturned b') →
      (∀ b' s', S.Fits s' → s'.cursor.rest = mid → Unreturned b' → W fuel b' s') →
        W (fuel + 1) b s)
    (hend : ∀ b s fuel, S.Fits s → s.cursor.rest = tail → k ≤ fuel → Unreturned b → W fuel b s)
    (hs : S.Fits s) (hrest : s.cursor.rest = seg ++ tail) (hk : k ≤ tail.length + 1) :
    W (s.cursor.rest.length + 1) ⟨[], none⟩ s := by
  have hfuel : seg.length + k ≤ s.cursor.rest.length + 1 := by
    rw [hrest, List.length_append]
    omega
  refine loopN_induct h hn ?_ ?_ htail ?_ hround hend hs hrest hfuel rfl
  · intro seg t ht
    obtain ⟨a, tail, rfl, _⟩ := statement_start ht
    exact List.cons_ne_nil _ _
  · intro seg t rest ht _ _
    obtain ⟨a, tail, rfl, ha⟩ := statement_start ht
    exact ha.expressionEnd
  · intro b s seg t rest ht hseg hs hrest hend hb
    have hread := hstatement seg t ht hseg s rest hs hrest hend
    obtain ⟨a, tail, rfl, ha⟩ := statement_start ht
    exact blockRound_statement ha hrest hb hread

/-- The statements of a block, and then what comes behind them. -/
theorem blockRounds_accepts {body : List Tree} {tail : List Token}
    {R : BlockSoFar → ParserState → Prop}
    (hstatement : Complete S env (statement read) (Statement env E Nothing) n ExpressionEnd)
    (h : Repeated (Statement env E Nothing) seg body) (hn : seg.length ≤ n)
    (htail : ExpressionEnd tail)
    (hend : ∀ b s fuel, S.Fits s → s.cursor.rest = tail → k ≤ fuel → Unreturned b →
      Accepts S (loopN (blockRound read opened) fuel b) env s rest R)
    (hs : S.Fits s) (hrest : s.cursor.rest = seg ++ tail) (hk : k ≤ tail.length + 1) :
    Accepts S (loop (blockRound read opened) ⟨[], none⟩) env s rest R :=
  loop_accepts (blockRounds_induct
    (W := fun fuel b s => Accepts S (loopN (blockRound read opened) fuel b) env s rest R)
    hstatement h hn htail (fun _ _ _ _ => loopN_more) hend hs hrest hk)

theorem block_readsBody
    (hstatement : Complete S env (statement read) (Statement env E Nothing) n ExpressionEnd)
    (hk : k ≤ n + 2) : ReadsBody S env (block read) (Statement env E Nothing) k := by
  intro seg t ht hlen s rest hs hrest
  cases ht with
  | @mk l r seg body id hl statements hr =>
    rw [List.length_cons, List.length_append, List.length_singleton] at hlen
    rw [List.cons_append, List.append_assoc, List.singleton_append] at hrest
    have hend : ExpressionEnd (r :: rest) := stops_of_is hr (by decide)
    refine (expect_accepts hs hrest hl).bind fun opening s₁ hs₁ hrest₁ _ => ?_
    have hloop : Accepts S (inPhase .statement (loop (blockRound read opening.span) ⟨[], none⟩)) env
        s₁ rest fun b _ => Unreturned b := by
      refine inPhase_accepts (blockRounds_accepts (k := 1) hstatement statements (by omega) hend ?_
        ⟨hs₁.tables, hs₁.tokens⟩ hrest₁ (by omega))
      intro b s fuel hs hrest hfuel hb
      obtain ⟨fuel, rfl⟩ : ∃ m, fuel = m + 1 := ⟨fuel - 1, by omega⟩
      refine loopN_done ((blockRound_close hr hs hrest).mono fun round s' hround => ?_)
      cases round with
      | more next => exact hround
      | done result => exact (show result = b from hround) ▸ hb
    refine hloop.bind fun b s₂ hs₂ hrest₂ hb => ?_
    refine (alloc_accepts hs₂ hrest₂).mono fun id s' hexpr => ?_
    rw [show b.ret = none from hb] at hexpr
    exact ⟨b.body, hexpr⟩

theorem block_complete
    (hstatement : Complete S env (statement read) (Statement env E Nothing) n ExpressionEnd)
    (hreturned : Complete S env (read .returned) (Return E) m ExpressionEnd)
    (hn : k ≤ n + 2) (hm : k ≤ m + 2) :
    Complete S env (block read) (Block (Statement env E Nothing) E) k anyEnd := by
  intro seg t ht hk s rest hs hrest _
  cases ht with
  | plain body => exact (block_readsBody hstatement hn seg t body hk s rest hs hrest).any
  | @returning l r seg inner body ret id hl statements last hr =>
    simp only [List.length_cons, List.length_append] at hk
    have hsplit : s.cursor.rest = l :: (seg ++ (inner ++ r :: rest)) := by simp [hrest]
    cases last with
    | @mk word value v rid hword hvalue =>
      have hlast : Return E (word :: value) (.node rid word (.returned v.root) [v]) :=
        .mk hword hvalue
      have hend : ExpressionEnd (word :: value ++ r :: rest) :=
        stops_of_is (is_of_isValue hword) (by decide)
      have hclosed : ExpressionEnd (r :: rest) := stops_of_is hr (by decide)
      rw [List.length_cons] at hk
      refine (expect_accepts hs hsplit hl).bind fun opening s₁ hs₁ hrest₁ _ => ?_
      have hloop : Accepts S (inPhase .statement (loop (blockRound read opening.span) ⟨[], none⟩))
          env s₁ rest fun _ _ => True := by
        refine inPhase_accepts (blockRounds_accepts (k := 2) hstatement statements (by omega) hend ?_
          ⟨hs₁.tables, hs₁.tokens⟩ hrest₁ (by simp))
        intro b s fuel hs hrest hfuel hb
        obtain ⟨fuel, rfl⟩ : ∃ m, fuel = m + 2 := ⟨fuel - 2, by omega⟩
        have hread := hreturned _ _ hlast (by rw [List.length_cons]; omega) s _ hs hrest hclosed
        refine loopN_more (blockRound_return hword hrest hb hread) fun b' s' hs' hrest' _ => ?_
        refine loopN_done ((blockRound_close hr hs' hrest').mono fun round s'' hround => ?_)
        cases round with
        | more next => exact hround
        | done result => trivial
      exact hloop.bind fun b s₂ hs₂ hrest₂ _ => (alloc_accepts hs₂ hrest₂).any

end Blocks

end ApiSyntax.Grammar
