/-
  ApiSyntax/Proofs/Parser/Agreement.lean --- runs that succeed.

  A run that succeeds is taken apart into the steps that it took, and a loop into its rounds.

  Parsers that look at tokens only are determined by them: two runs from the same tokens
  that both succeed pass the same ones, whatever was built before (`Agree`).  A run that is
  made again from where an alternative was given up is such a pair.
-/
import ApiSyntax.Proofs.Parser.Steps

set_option autoImplicit false

namespace ApiSyntax

/-! ## Steps and rounds -/

namespace Action

variable {σ ε α β : Type} {x : Action σ ε α} {s s' : σ}

theorem bind_eq_ok {f : α → Action σ ε β} {b : β} :
    (x >>= f) s = (.ok b, s') ↔ ∃ a s₁, x s = (.ok a, s₁) ∧ f a s₁ = (.ok b, s') := by
  rw [bind_run]
  constructor
  · intro h
    cases hrun : x s with
    | mk result s₁ =>
      rw [hrun] at h
      cases result with
      | error e => cases h
      | ok a => exact ⟨a, s₁, rfl, h⟩
  · rintro ⟨a, s₁, hrun, h⟩
    rw [hrun]
    exact h

theorem of_mapError_eq_ok {ε' : Type} {f : ε → ε'} {a : α} (h : x.mapError f s = (.ok a, s')) :
    x s = (.ok a, s') := by
  unfold mapError at h
  cases hrun : x s with
  | mk result s₁ =>
    rw [hrun] at h
    cases result with
    | error e => cases h
    | ok a' =>
      cases h
      rfl

end Action

namespace Parser

variable {α β γ δ : Type} {env : ParserEnv} {s s' : ParserState}

theorem bind_eq_ok {p : Parser α} {f : α → Parser β} {b : β} :
    (p >>= f) env s = (.ok b, s') ↔ ∃ a s₁, p env s = (.ok a, s₁) ∧ f a env s₁ = (.ok b, s') :=
  Action.bind_eq_ok

theorem inPhase_eq_ok {inner : Phase} {p : Parser α} {a : α}
    (h : inPhase inner p env s = (.ok a, s')) :
    ∃ s₁, p env { s with phase := inner } = (.ok a, s₁) ∧ s' = { s₁ with phase := s.phase } := by
  unfold inPhase at h
  dsimp only at h
  cases hrun : p env { s with phase := inner } with
  | mk result s₁ =>
    rw [hrun] at h
    cases h
    exact ⟨s₁, rfl, rfl⟩

theorem building_eq_ok {x : Action Workspace Stop α} {a : α}
    (h : building x env s = (.ok a, s')) : x s.work = (.ok a, s'.work) := by
  rw [building_run] at h
  cases hrun : x s.work with
  | mk result w =>
    rw [hrun] at h
    cases h
    rfl

theorem atArena_eq_ok {g : Arena → Except Diagnostic α} {a : α}
    (h : atArena g env s = (.ok a, s')) : g s.work.arena = .ok a ∧ s' = s := by
  unfold atArena at h
  cases hg : g s.work.arena with
  | error d =>
    rw [hg] at h
    cases h
  | ok b =>
    rw [hg] at h
    cases h
    exact ⟨rfl, rfl⟩

/-- A token that is not there is not consumed. -/
theorem expect_unmet {kind : TokenKind} (env : ParserEnv) (h : s.cursor.check kind = false) :
    ∃ e, expect kind env s = (.error e, s) := by
  unfold expect expectWhere expectOr
  rw [bind_run, Action.bind_run]
  cases hrest : s.cursor.rest with
  | nil =>
    rw [peek_run_nil hrest]
    exact ⟨_, rfl⟩
  | cons t rest =>
    rw [peek_run hrest]
    have hkind : t.is kind = false := by
      rw [Cursor.check, hrest] at h
      simpa using h
    simp only [hkind, Bool.false_and, Bool.false_eq_true, if_false]
    exact ⟨_, rfl⟩

/-- A token is expected where it is. -/
theorem check_of_expect {kind : TokenKind} {t : Token} (h : expect kind env s = (.ok t, s')) :
    s.cursor.check kind = true := by
  by_contra hcheck
  obtain ⟨e, hrun⟩ := expect_unmet env (Bool.eq_false_iff.mpr hcheck)
  rw [hrun] at h
  cases h

/-- The next token is of one kind only. -/
theorem check_other {kind other : TokenKind} (h : s.cursor.check kind = true)
    (hother : kind.name ≠ other.name) : s.cursor.check other = false := by
  obtain ⟨t, rest, hrest, ht⟩ := Cursor.check_iff.mp h
  rw [Cursor.check, hrest, List.head?_cons, Option.any_some, Token.is_of_is ht]
  simpa [TokenKind.same] using hother

/-- What holds behind a round: `I` if the loop goes on, `Q` if it is done. -/
def Round.Leaves (I : β → ParserState → Prop) (Q : γ → ParserState → Prop) (s : ParserState) :
    Round β γ → Prop
  | .more b => I b s
  | .done c => Q c s

/-- What each round keeps until the last one holds behind the loop. -/
theorem loop_induct {round : β → Parser (Round β γ)} (I : β → ParserState → Prop)
    (Q : γ → ParserState → Prop) {b : β} {c : γ}
    (hround : ∀ b s r s', I b s → round b env s = (.ok r, s') → r.Leaves I Q s')
    (hb : I b s) (h : loop round b env s = (.ok c, s')) : Q c s' := by
  have hrounds : ∀ fuel b s, I b s → loopN round fuel b env s = (.ok c, s') → Q c s' := by
    intro fuel
    induction fuel with
    | zero => exact fun _ _ _ h => nomatch h
    | succ fuel ih =>
      intro b s hb h
      rw [loopN] at h
      obtain ⟨r, s₁, hrun, hrest⟩ := bind_eq_ok.mp h
      have hleaves := hround b s r s₁ hb hrun
      cases r with
      | more b' => exact ih b' s₁ hleaves hrest
      | done c' =>
        cases hrest
        exact hleaves
  exact hrounds _ b s hb h

/-- The state from which the next rule is tried, after one failed in the state `s'`. -/
def retried (s s' : ParserState) (e : Event) : ParserState :=
  ⟨s.cursor, s.phase, { s'.work with events := s'.work.events.push e }⟩

/-- The first rule succeeds, or it fails and those behind it succeed. -/
theorem attemptFrom_cons {propagate : Bool} {rule : Rule} {rules : List Rule}
    {last : Option Diagnostic} {id : NodeId}
    (h : attemptFrom propagate (rule :: rules) last env s = (.ok (some id), s')) :
    rule.parse env s = (.ok id, s') ∨ ∃ d s₁, rule.parse env s = (.error (.failed d), s₁) ∧
      attemptFrom propagate rules (some d) env (retried s s₁ (.mismatched rule.name d)) =
        (.ok (some id), s') := by
  unfold attemptFrom at h
  dsimp only at h
  cases hrun : rule.parse env s with
  | mk result s₁ =>
    rw [hrun] at h
    match result with
    | .ok id' =>
      cases h
      exact .inl rfl
    | .error (.failed d) => exact .inr ⟨d, s₁, rfl, h⟩
    | .error .exhausted => cases h

theorem attemptFrom_nil {propagate : Bool} {last : Option Diagnostic} {id : NodeId} :
    attemptFrom propagate [] last env s ≠ (.ok (some id), s') := by
  intro h
  cases last with
  | none => cases h
  | some d => cases propagate <;> cases h

/-- A choice that succeeds is an attempt of the rules that accept. -/
theorem dispatch_eq_ok {rules : List Rule} {expected : String} {id : NodeId}
    (h : dispatch rules expected env s = (.ok id, s')) :
    attemptFrom true (rules.filter (·.accepts s.cursor.rest)) none env s = (.ok (some id), s') := by
  unfold dispatch at h
  rw [remaining_bind] at h
  generalize rules.filter (·.accepts s.cursor.rest) = candidates at h
  cases candidates with
  | nil =>
    obtain ⟨t, s₁, -, hfail⟩ := bind_eq_ok.mp h
    cases hfail
  | cons rule rules =>
    obtain ⟨o, s₁, hattempt, hrest⟩ := bind_eq_ok.mp h
    cases o with
    | none => cases hrest
    | some id' =>
      cases hrest
      exact hattempt

/-- A choice of which at most one rule accepts succeeds by that rule. -/
theorem dispatch_eq_ok_of_one {rules : List Rule} {expected : String} {id : NodeId}
    (hone : (rules.filter (·.accepts s.cursor.rest)).length ≤ 1)
    (h : dispatch rules expected env s = (.ok id, s')) :
    ∃ rule ∈ rules.filter (·.accepts s.cursor.rest), rule.parse env s = (.ok id, s') := by
  replace h := dispatch_eq_ok h
  generalize rules.filter (·.accepts s.cursor.rest) = candidates at hone h ⊢
  match candidates, hone, h with
  | [], _, h => exact absurd h attemptFrom_nil
  | [rule], _, h =>
    obtain hrun | ⟨d, s₁, -, hrest⟩ := attemptFrom_cons h
    · exact ⟨rule, List.mem_cons_self, hrun⟩
    · exact absurd hrest attemptFrom_nil

/-! ## Agreement -/

/-- From the same tokens, runs that succeed leave the same tokens, and results that `R` relates. -/
def Agree (env : ParserEnv) (R : α → β → Prop) (p : Parser α) (q : Parser β) : Prop :=
  ∀ s t a b s' t', s.cursor.rest = t.cursor.rest → p env s = (.ok a, s') →
    q env t = (.ok b, t') → s'.cursor.rest = t'.cursor.rest ∧ R a b

/-- Any two results. -/
def Whatever (_ : α) (_ : β) : Prop := True

namespace Agree

variable {p : Parser α} {q : Parser β} {R : α → β → Prop}

theorem bind {f : α → Parser γ} {g : β → Parser δ} {S : γ → δ → Prop} (hp : Agree env R p q)
    (hf : ∀ a b, R a b → Agree env S (f a) (g b)) : Agree env S (p >>= f) (q >>= g) := by
  intro s t c d s' t' hrest hs ht
  obtain ⟨a, s₁, hps, hfs⟩ := bind_eq_ok.mp hs
  obtain ⟨b, t₁, hqt, hgt⟩ := bind_eq_ok.mp ht
  obtain ⟨hrest', hab⟩ := hp s t a b s₁ t₁ hrest hps hqt
  exact hf a b hab s₁ t₁ c d s' t' hrest' hfs hgt

/-- Steps that leave the place alone. -/
theorem silent (hp : ∀ s, (p env s).2.cursor = s.cursor) (hq : ∀ s, (q env s).2.cursor = s.cursor) :
    Agree env Whatever p q := by
  intro s t a b s' t' hrest hs ht
  have hps := hp s
  have hqt := hq t
  rw [hs] at hps
  rw [ht] at hqt
  rw [hps, hqt]
  exact ⟨hrest, trivial⟩

theorem pure {a : α} {b : β} (h : R a b) : Agree env R (Pure.pure a) (Pure.pure b) := by
  intro s t a' b' s' t' hrest hs ht
  cases hs
  cases ht
  exact ⟨hrest, h⟩

theorem cond {c : Prop} [Decidable c] {p' : Parser α} {q' : Parser β} (h : Agree env R p q)
    (h' : Agree env R p' q') : Agree env R (if c then p else p') (if c then q else q') := by
  by_cases hc : c
  · rw [if_pos hc, if_pos hc]
    exact h
  · rw [if_neg hc, if_neg hc]
    exact h'

/-- What the next token is decides the way. -/
theorem check {kind : TokenKind} {f : Bool → Parser α} {g : Bool → Parser β}
    (h : ∀ c, Agree env R (f c) (g c)) :
    Agree env R (Parser.check kind >>= f) (Parser.check kind >>= g) := by
  intro s t a b s' t' hrest hs ht
  rw [check_bind] at hs ht
  have hsame : s.cursor.check kind = t.cursor.check kind := by
    rw [Cursor.check, Cursor.check, hrest]
  rw [hsame] at hs
  exact h _ s t a b s' t' hrest hs ht

theorem startToken {f : Token → Parser α} {g : Token → Parser β}
    (h : ∀ a b, Agree env R (f a) (g b)) :
    Agree env R (Parser.startToken >>= f) (Parser.startToken >>= g) :=
  bind (silent (fun _ => rfl) fun _ => rfl) fun a b _ => h a b

theorem alloc {a b : Token} {e e' : Expr} :
    Agree env Whatever (Parser.alloc a e) (Parser.alloc b e') :=
  silent (fun _ => rfl) fun _ => rfl

theorem duplicate {id id' : NodeId} :
    Agree env Whatever (Parser.duplicate id) (Parser.duplicate id') :=
  silent (fun _ => rfl) fun _ => rfl

theorem consume : Agree env Whatever Parser.consume Parser.consume := by
  intro s t a b s' t' hrest hs ht
  cases htokens : s.cursor.rest with
  | nil =>
    rw [consume_run_nil htokens] at hs
    cases hs
  | cons u rest =>
    rw [consume_run htokens] at hs
    rw [consume_run (hrest ▸ htokens)] at ht
    cases hs
    cases ht
    exact ⟨rfl, trivial⟩

/-- A step that consumes the next token or fails. -/
theorem consuming {x y : Parser Token} (hx : ∀ s a s', x env s = (.ok a, s') →
      Parser.consume env s = (.ok a, s'))
    (hy : ∀ s a s', y env s = (.ok a, s') → Parser.consume env s = (.ok a, s')) :
    Agree env Whatever x y :=
  fun s t a b s' t' hrest hs ht => consume s t a b s' t' hrest (hx s a s' hs) (hy t b t' ht)

theorem expectOr {kind kind' : TokenKind} {p q : Token → Bool} {error error' : Token → Diagnostic} :
    Agree env Whatever (Parser.expectOr kind p error) (Parser.expectOr kind' q error') := by
  have hconsumes : ∀ (kind : TokenKind) (p : Token → Bool) (error : Token → Diagnostic) s a s',
      Parser.expectOr kind p error env s = (.ok a, s') → Parser.consume env s = (.ok a, s') := by
    intro kind p error s a s' h
    obtain ⟨t, s₁, hpeek, hrest⟩ := bind_eq_ok.mp h
    have hs : s₁ = s := (congrArg Prod.snd hpeek).symm
    subst hs
    split at hrest
    · exact hrest
    · cases hrest
  exact consuming (hconsumes kind p error) (hconsumes kind' q error')

theorem expectAny {kinds kinds' : List TokenKind} :
    Agree env Whatever (Parser.expectAny kinds true) (Parser.expectAny kinds' true) := by
  have hconsumes : ∀ (kinds : List TokenKind) s a s',
      Parser.expectAny kinds true env s = (.ok a, s') → Parser.consume env s = (.ok a, s') := by
    intro kinds s a s' h
    obtain ⟨t, s₁, hpeek, hrest⟩ := bind_eq_ok.mp h
    have hs : s₁ = s := (congrArg Prod.snd hpeek).symm
    subst hs
    split at hrest
    · exact hrest
    · cases hrest
  exact consuming (hconsumes kinds) (hconsumes kinds')

/-- Both loops go on, or both are done. -/
def SameRound : Round α β → Round γ δ → Prop
  | .more _, .more _ => True
  | .done _, .done _ => True
  | _, _ => False

theorem loop {round : α → Parser (Round α β)} {round' : γ → Parser (Round γ δ)} {a : α} {c : γ}
    (h : ∀ a c, Agree env SameRound (round a) (round' c)) :
    Agree env Whatever (Parser.loop round a) (Parser.loop round' c) := by
  have hrounds : ∀ fuel a c, Agree env Whatever (loopN round fuel a) (loopN round' fuel c) := by
    intro fuel
    induction fuel with
    | zero => exact fun _ _ _ _ _ _ _ _ _ hs => nomatch hs
    | succ fuel ih =>
      intro a c
      unfold loopN
      apply (h a c).bind
      intro r r' hround
      cases r with
      | more a' =>
        cases r' with
        | more c' => exact ih a' c'
        | done d => cases hround
      | done b =>
        cases r' with
        | more c' => cases hround
        | done d => exact pure trivial
  intro s t b d s' t' hrest hs ht
  unfold Parser.loop at hs ht
  rw [hrest] at hs
  exact hrounds _ a c s t b d s' t' hrest hs ht

theorem parenthesizedList {opening closing delimiter : TokenKind} {p : Parser α} {q : Parser β}
    (h : Agree env Whatever p q) :
    Agree env Whatever (Parser.parenthesizedList opening closing p delimiter)
      (Parser.parenthesizedList opening closing q delimiter) := by
  have hdelimited : Agree env Whatever (delimited p delimiter) (delimited q delimiter) := by
    apply h.bind fun a b _ => ?_
    apply loop fun items items' => ?_
    apply check fun c => ?_
    apply cond
    · apply consume.bind fun _ _ _ => ?_
      exact h.bind fun _ _ _ => pure trivial
    · exact pure trivial
  apply expectOr.bind fun _ _ _ => ?_
  apply check fun c => ?_
  apply cond
  · exact consume.bind fun _ _ _ => pure trivial
  · apply hdelimited.bind fun _ _ _ => ?_
    exact expectOr.bind fun _ _ _ => pure trivial

end Agree

end Parser

end ApiSyntax
