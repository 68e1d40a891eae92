/-
  ApiSyntax/Proofs/Parser/Lookahead.lean --- what a parser that succeeds found ahead.

  A parser that succeeds needs certain tokens ahead (`Needs`): the token that a step takes
  (`Takes`), and behind it what the next step needs.  A choice needs what one of its
  triggers accepts; it attempts the candidates from one place, and if they all fail, with
  what the last one failed with.
-/
import ApiSyntax.Proofs.Parser.Agreement
import ApiSyntax.Proofs.Parser.Complete

set_option autoImplicit false

namespace ApiSyntax

namespace Parser

variable {α β : Type} {env : ParserEnv} {s s' : ParserState} {P Q : List Token → Prop}
  {p : Token → Prop} {rules : List Rule} {d : Diagnostic}

/-! ## What a parser needs ahead -/

/-- The first token satisfies `p`, and those behind it satisfy `P`. -/
def Ahead (p : Token → Prop) (P : List Token → Prop) (tokens : List Token) : Prop :=
  ∃ t rest, tokens = t :: rest ∧ p t ∧ P rest

/-- The first token is of one of the kinds. -/
def OneOf (kinds : List TokenKind) : List Token → Prop :=
  Ahead (fun t => kinds.any t.is = true) fun _ => True

theorem oneOf_of_mem {kind : TokenKind} {kinds : List TokenKind} {tokens : List Token}
    (hkind : kind ∈ kinds) (h : Ahead (fun t => t.is kind = true) (fun _ => True) tokens) :
    OneOf kinds tokens := by
  obtain ⟨t, rest, rfl, ht, -⟩ := h
  exact ⟨t, rest, rfl, List.any_eq_true.mpr ⟨kind, hkind, ht⟩, trivial⟩

theorem OneOf.subset {kinds kinds' : List TokenKind} {tokens : List Token} (h : OneOf kinds tokens)
    (hsub : kinds ⊆ kinds') : OneOf kinds' tokens := by
  obtain ⟨t, rest, rfl, ht, -⟩ := h
  obtain ⟨kind, hkind, hmatch⟩ := List.any_eq_true.mp ht
  exact ⟨t, rest, rfl, List.any_eq_true.mpr ⟨kind, hsub hkind, hmatch⟩, trivial⟩

/-- The parser succeeds only where the tokens ahead satisfy `P`. -/
def Needs (env : ParserEnv) (x : Parser α) (P : List Token → Prop) : Prop :=
  ∀ s a s', x env s = (.ok a, s') → P s.cursor.rest

/-- A parser that succeeds passes one token, which satisfies `p`. -/
def Takes (env : ParserEnv) (x : Parser α) (p : Token → Prop) : Prop :=
  ∀ s a s', x env s = (.ok a, s') → ∃ t, s.cursor.rest = t :: s'.cursor.rest ∧ p t

/-- The parser stays at its place. -/
def Stays (env : ParserEnv) (x : Parser α) : Prop :=
  ∀ s a s', x env s = (.ok a, s') → s'.cursor = s.cursor

theorem Stays.question {x : Parser α} (hx : ∀ s, (x env s).2 = s) : Stays env x := by
  intro s a s' h
  have hsame := hx s
  rw [h] at hsame
  exact congrArg ParserState.cursor hsame

theorem Stays.building (x : Action Workspace Stop α) : Stays env (Parser.building x) := by
  intro s a s' h
  have hcursor : (Parser.building x env s).2.cursor = s.cursor := rfl
  rwa [h] at hcursor

theorem Stays.bind {x : Parser α} {f : α → Parser β} (hx : Stays env x)
    (hf : ∀ a, Stays env (f a)) : Stays env (x >>= f) := by
  intro s b s' h
  obtain ⟨a, s₁, hrun, hrest⟩ := bind_eq_ok.mp h
  rw [hf a s₁ b s' hrest, hx s a s₁ hrun]

namespace Takes

variable {x : Parser α}

/-- What is done behind the token stays at its place. -/
theorem stay {f : α → Parser β} (hx : Takes env x p) (hf : ∀ a, Stays env (f a)) :
    Takes env (x >>= f) p := by
  intro s b s' h
  obtain ⟨a, s₁, hrun, hrest⟩ := bind_eq_ok.mp h
  rw [hf a s₁ b s' hrest]
  exact hx s a s₁ hrun

theorem consume : Takes env Parser.consume fun _ => True := by
  intro s a s' h
  cases htokens : s.cursor.rest with
  | nil =>
    rw [consume_run_nil htokens] at h
    cases h
  | cons t rest =>
    rw [consume_run htokens] at h
    cases h
    exact ⟨_, rfl, trivial⟩

/-- A token is looked at, and consumed if it is as demanded. -/
theorem demanded {test : Token → Bool} {refused : Token → Parser Token}
    (hrefused : ∀ t s a s', refused t env s ≠ (.ok a, s')) :
    Takes env (peek >>= fun t => if test t then Parser.consume else refused t) (test · = true) := by
  intro s a s' h
  obtain ⟨t, s₁, hpeek, hrest⟩ := bind_eq_ok.mp h
  cases htokens : s.cursor.rest with
  | nil =>
    rw [peek_run_nil htokens] at hpeek
    cases hpeek
  | cons u rest =>
    rw [peek_run htokens] at hpeek
    obtain ⟨rfl, rfl⟩ : t = u ∧ s₁ = s := by
      cases hpeek
      exact ⟨rfl, rfl⟩
    split at hrest
    · next htest =>
      obtain ⟨v, hv, -⟩ := consume s₁ a s' hrest
      obtain ⟨rfl, rfl⟩ := List.cons.inj (htokens.symm.trans hv)
      exact ⟨t, rfl, htest⟩
    · exact absurd hrest (hrefused t s₁ a s')

theorem expectWhere {kind : TokenKind} {test : Token → Bool} {expected : String} :
    Takes env (Parser.expectWhere kind test expected) fun t => (t.is kind && test t) = true :=
  demanded fun _ _ _ _ h => nomatch h

theorem expect (kind : TokenKind) : Takes env (Parser.expect kind) fun t => t.is kind = true :=
  fun s a s' h =>
    have ⟨t, hrest, ht⟩ := expectWhere s a s' h
    ⟨t, hrest, (Bool.and_eq_true_iff.mp ht).1⟩

theorem expectKeyword (word : String) :
    Takes env (Parser.expectKeyword word) fun t => t.isValue .keyword word = true :=
  expectWhere

end Takes

namespace Needs

theorem mono {x : Parser α} (h : Needs env x P) (hPQ : ∀ tokens, P tokens → Q tokens) :
    Needs env x Q :=
  fun s a s' hrun => hPQ _ (h s a s' hrun)

/-- What the first step needs, the steps together need. -/
theorem first {x : Parser α} {f : α → Parser β} (h : Needs env x P) : Needs env (x >>= f) P := by
  intro s b s' hrun
  obtain ⟨a, s₁, hx, -⟩ := bind_eq_ok.mp hrun
  exact h s a s₁ hx

/-- A step that stays at its place, then what follows from it. -/
theorem behind {x : Parser α} {f : α → Parser β} (hx : Stays env x)
    (hf : ∀ a, Needs env (f a) P) : Needs env (x >>= f) P := by
  intro s b s' hrun
  obtain ⟨a, s₁, hstep, hrest⟩ := bind_eq_ok.mp hrun
  rw [← hx s a s₁ hstep]
  exact hf a s₁ b s' hrest

/-- A token is taken, then what follows from it. -/
theorem next {x : Parser α} {f : α → Parser β} (hx : Takes env x p)
    (hf : ∀ a, Needs env (f a) P) : Needs env (x >>= f) (Ahead p P) := by
  intro s b s' hrun
  obtain ⟨a, s₁, hstep, hrest⟩ := bind_eq_ok.mp hrun
  obtain ⟨t, htokens, ht⟩ := hx s a s₁ hstep
  exact ⟨t, s₁.cursor.rest, htokens, ht, hf a s₁ b s' hrest⟩

theorem takes {x : Parser α} (hx : Takes env x p) : Needs env x (Ahead p fun _ => True) :=
  fun s a s' hrun =>
    have ⟨t, hrest, ht⟩ := hx s a s' hrun
    ⟨t, s'.cursor.rest, hrest, ht, trivial⟩

/-- If the next token is of the kind that is asked for, this is all that is needed. -/
theorem check {kind : TokenKind} {f : Bool → Parser α}
    (hyes : ∀ tokens, Ahead (fun t => t.is kind = true) (fun _ => True) tokens → P tokens)
    (hno : Needs env (f false) P) :
    Needs env (Parser.check kind >>= f) P := by
  intro s a s' hrun
  rw [check_bind] at hrun
  cases hcheck : s.cursor.check kind with
  | false =>
    rw [hcheck] at hrun
    exact hno s a s' hrun
  | true =>
    obtain ⟨t, rest, hrest, ht⟩ := Cursor.check_iff.mp hcheck
    exact hyes _ ⟨t, rest, hrest, ht, trivial⟩

/-- A choice needs what one of its triggers accepts. -/
theorem choice {read : Production → Parser NodeId} {options : List Production}
    {expected : String} :
    Needs env (Parser.choice read options expected) fun tokens =>
      ∃ p ∈ options, Parser.applies tokens p := by
  intro s id s' hrun
  have hcandidates := dispatch_eq_ok hrun
  cases hfound : (options.map (Production.ruleOf read)).filter (·.accepts s.cursor.rest) with
  | nil =>
    rw [hfound] at hcandidates
    exact absurd hcandidates attemptFrom_nil
  | cons rule rules =>
    have hrule : rule ∈ (options.map (Production.ruleOf read)).filter (·.accepts s.cursor.rest) := by
      rw [hfound]
      exact List.mem_cons_self
    obtain ⟨hmem, haccepts⟩ := List.mem_filter.mp hrule
    obtain ⟨p, hp, rfl⟩ := List.mem_map.mp hmem
    exact ⟨p, hp, haccepts⟩

end Needs

/-! ## Choices -/

/-- If rules fail one after another, the failure is the one of the last rule, which was tried from
the place and in the phase of the first. -/
theorem attemptFrom_eq_error {last : Option Diagnostic}
    (h : attemptFrom true rules last env s = (.error (.failed d), s')) :
    (rules = [] ∧ last = some d) ∨ ∃ rule ∈ rules, ∃ s₁ s₂, s₁.cursor = s.cursor ∧
      s₁.phase = s.phase ∧ rule.parse env s₁ = (.error (.failed d), s₂) := by
  induction rules generalizing s last with
  | nil =>
    cases last with
    | none => cases h
    | some d' =>
      cases h
      exact .inl ⟨rfl, rfl⟩
  | cons rule rules ih =>
    refine .inr ?_
    unfold attemptFrom at h
    dsimp only at h
    cases hrun : rule.parse env s with
    | mk result s₁ =>
      rw [hrun] at h
      cases result with
      | ok id => cases h
      | error stop =>
        cases stop with
        | exhausted => cases h
        | failed d' =>
          obtain ⟨rfl, hlast⟩ | ⟨other, hother, s₂, s₃, hcursor, hphase, hfail⟩ := ih h
          · cases hlast
            exact ⟨rule, List.mem_cons_self, s, s₁, rfl, rfl, hrun⟩
          · exact ⟨other, List.mem_cons_of_mem _ hother, s₂, s₃, hcursor, hphase, hfail⟩

/-- Rules that are tried and fail never come to nothing. -/
theorem attemptFrom_ne_none {last : Option Diagnostic} (hne : rules ≠ [] ∨ last.isSome) :
    attemptFrom true rules last env s ≠ (.ok none, s') := by
  intro h
  induction rules generalizing s last with
  | nil =>
    cases last with
    | none => simp at hne
    | some d => cases h
  | cons rule rules ih =>
    unfold attemptFrom at h
    dsimp only at h
    cases hrun : rule.parse env s with
    | mk result s₁ =>
      rw [hrun] at h
      cases result with
      | ok id => cases h
      | error stop =>
        cases stop with
        | exhausted => cases h
        | failed d => exact ih (.inr rfl) h

theorem alternation_eq_error (hne : rules ≠ [])
    (h : alternation rules env s = (.error (.failed d), s')) :
    ∃ rule ∈ rules, ∃ s₁ s₂, s₁.cursor = s.cursor ∧ s₁.phase = s.phase ∧
      rule.parse env s₁ = (.error (.failed d), s₂) := by
  rw [alternation, attemptAny, bind_run, Action.bind_run] at h
  cases hrun : attemptFrom true rules none env s with
  | mk result s₁ =>
    rw [hrun] at h
    cases result with
    | ok found =>
      cases found with
      | some id => cases h
      | none => exact absurd hrun (attemptFrom_ne_none (.inl hne))
    | error stop =>
      cases h
      exact (attemptFrom_eq_error hrun).resolve_left fun hnil => hne hnil.1

/-- A choice for which a trigger accepts is an attempt of the candidates. -/
theorem choice_eq_alternation {read : Production → Parser NodeId} {options : List Production}
    {expected : String} (hne : options.filter (applies s.cursor.rest) ≠ []) :
    choice read options expected env s =
      alternation ((options.filter (applies s.cursor.rest)).map (Production.ruleOf read)) env s := by
  have hsame : (options.map (Production.ruleOf read)).filter (·.accepts s.cursor.rest) =
      (options.filter (applies s.cursor.rest)).map (Production.ruleOf read) := List.filter_map
  rw [choice, dispatch, remaining_bind, hsame]
  cases hfound : options.filter (applies s.cursor.rest) with
  | nil => exact absurd hfound hne
  | cons p ps => rfl

end Parser

end ApiSyntax
