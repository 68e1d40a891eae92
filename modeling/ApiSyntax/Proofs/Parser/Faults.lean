/-
  ApiSyntax/Proofs/Parser/Faults.lean --- what a run may fail of.

  A fault is a failure that the text is to blame for: its cause is one that a text can give
  rise to, and it is placed at a token of the text, unless the text ends too early.  A run is
  clean when it fails of nothing but a fault, and so does every alternative that it gave up.
  A clean run asks for no foreign handle, and it does not use up its bound on recursion.

  Extensions may fail of other things, so a run is called tidy when its bound is not used up and,
  where the proposition `B` holds, it is clean.

  `Safe` speaks of the runs over fewer than `n` tokens, so that a bound on the depth can be
  set against the tokens that remain.  A loop is safe when its rounds are and when each of
  them but the last passes a token.
-/
import ApiSyntax.Proofs.Parser.Combinators

set_option autoImplicit false

namespace ApiSyntax

open Arena

/-! ## Faults -/

/-- A text alone can give rise to the cause. -/
def Cause.isTextual : Cause → Bool
  | outOfTokens | unexpectedToken .. | unclosedBlock .. | codeAfterReturn | deferReturn
  | unknownOperator .. | alreadyDeclaredOperator .. | alreadyRelated .. | unknownExtension ..
  | extensionParameterMismatch .. | lexicalError .. | invalidLiteral .. => true
  | _ => false

variable {T : Token → Prop}

/-- A failure that the text is to blame for whose tokens `T` knows. -/
structure Diagnostic.Fault (T : Token → Prop) (d : Diagnostic) : Prop where
  textual : d.cause.isTextual
  placed : d.span = none → d.cause = .outOfTokens
  place : ∀ span, d.span = some span → ∃ t, T t ∧ t.span = span

theorem Diagnostic.fault_outOfTokens : Diagnostic.outOfTokens.Fault T :=
  ⟨rfl, fun _ => rfl, fun _ h => nomatch h⟩

/-- What a text can give rise to, placed at one of its tokens. -/
theorem Diagnostic.fault_of_span {d : Diagnostic} {t : Token} (hcause : d.cause.isTextual)
    (hspan : d.span = some t.span) (ht : T t) : d.Fault T where
  textual := hcause
  placed h := by
    rw [hspan] at h
    cases h
  place span h := by
    rw [hspan] at h
    cases h
    exact ⟨t, ht, rfl⟩

theorem Diagnostic.fault_unexpected {t : Token} (ht : T t) (expected : String) :
    (Diagnostic.unexpected t expected).Fault T := fault_of_span rfl rfl ht

/-- The run fails of a fault. -/
def Stop.Fault (T : Token → Prop) : Stop → Prop
  | .failed d => d.Fault T
  | .exhausted => False

/-- An alternative was given up because of a fault, if any was given up. -/
def Event.Clean (T : Token → Prop) : Event → Prop
  | .rewound _ why => why.Fault T
  | .mismatched _ why => why.Fault T
  | .ambiguous .. => False
  | _ => True

/-- Alternatives were given up because of faults only. -/
def Workspace.Clean (T : Token → Prop) (w : Workspace) : Prop := ∀ e ∈ w.events, e.Clean T

theorem Workspace.Clean.push {w : Workspace} {e : Event} (h : w.Clean T) (he : e.Clean T) :
    Workspace.Clean T { w with events := w.events.push e } := by
  intro e' he'
  rcases Array.mem_push.mp he' with he' | rfl
  · exact h e' he'
  · exact he

/-- A run that fails of a fault, if it fails, and gave up alternatives because of faults only. -/
structure Clean {α : Type} (T : Token → Prop) (r : Except Stop α × ParserState) : Prop where
  work : r.2.work.Clean T
  stop : ∀ e, r.1 = .error e → e.Fault T

/-- A run that does not use up its bound, and that is clean if `B` holds. -/
structure Tidy {α : Type} (B : Prop) (T : Token → Prop) (r : Except Stop α × ParserState) :
    Prop where
  bounded : r.1 ≠ .error .exhausted
  work : B → r.2.work.Clean T
  fault : B → ∀ d, r.1 = .error (.failed d) → d.Fault T

variable {B : Prop} {S : Setting} {α β γ : Type} {env : ParserEnv} {b s s' : ParserState}
  {seg : List Token} {ts : List Tree}

namespace Tidy

theorem clean {r : Except Stop α × ParserState} (h : Tidy B T r) (hB : B) : Clean T r := by
  refine ⟨h.work hB, fun e he => ?_⟩
  cases e with
  | failed d => exact h.fault hB d he
  | exhausted => exact h.bounded he

theorem ok {a : α} (h : B → s.work.Clean T) : Tidy B T (Except.ok a, s) :=
  ⟨(fun he => nomatch he), h, fun _ _ he => nomatch he⟩

theorem stopped {d : Diagnostic} (h : B → s.work.Clean T) (hd : B → d.Fault T) :
    Tidy B T ((.error (.failed d), s) : Except Stop α × ParserState) := by
  refine ⟨fun he => ?_, h, fun hB d' he => ?_⟩
  · cases he
  · cases he
    exact hd hB

theorem failed {d : Diagnostic} (h : B → s.work.Clean T) (hd : d.Fault T) :
    Tidy B T ((.error (.failed d), s) : Except Stop α × ParserState) := stopped h fun _ => hd

theorem pure {a : α} (h : B → s.work.Clean T) : Tidy B T ((Pure.pure a : Parser α) env s) := ok h

theorem fail {d : Diagnostic} (h : B → s.work.Clean T) (hd : d.Fault T) :
    Tidy B T ((Parser.fail d : Parser α) env s) := failed h hd

theorem alloc {token : Token} {expr : Expr} (h : B → s.work.Clean T) :
    Tidy B T (Parser.alloc token expr env s) := ok h

theorem cond {c : Prop} [Decidable c] {x y : Parser α} (hx : c → Tidy B T (x env s))
    (hy : ¬c → Tidy B T (y env s)) : Tidy B T ((if c then x else y : Parser α) env s) := by
  by_cases hc : c
  · rw [if_pos hc]
    exact hx hc
  · rw [if_neg hc]
    exact hy hc

end Tidy

/-! ## Tracks -/

/-- A step whose alternatives were given up because of faults only, where `B` holds. -/
structure Track (B : Prop) (S : Setting) (b s : ParserState) (seg : List Token)
    (ts : List Tree) : Prop extends Step S b s seg ts where
  base : S.Fits b
  clean : B → s.work.Clean S.Tokens

namespace Track

theorem refl (hs : S.Fits s) (h : B → s.work.Clean S.Tokens) : Track B S s s [] [] :=
  ⟨Step.refl hs, hs, h⟩

/-- A token that was passed is one of the text. -/
theorem known (h : Track B S b s seg ts) {t : Token} (ht : t ∈ seg) : S.Tokens t := by
  apply h.base.tokens t
  rw [h.passes.ahead]
  exact List.mem_append_left _ ht

/-- Tokens are passed or remain. -/
theorem length_eq (h : Track B S b s seg ts) :
    seg.length + s.cursor.rest.length = b.cursor.rest.length := by
  rw [h.passes.ahead, List.length_append]

variable {Q : α → List Token → List Tree → Prop} {x : Parser α} {f : α → Parser β}

/-- A clean run, then what follows from what it comes to. -/
theorem bind (h : Track B S b s seg ts) (hx : Outcome S b Q (x env s))
    (hclean : Tidy B S.Tokens (x env s))
    (hf : ∀ a s₁ seg₁ ts₁, Q a seg₁ ts₁ → Track B S b s₁ seg₁ ts₁ →
      Tidy B S.Tokens (f a env s₁)) : Tidy B S.Tokens ((x >>= f) env s) := by
  rw [Parser.bind_run, Action.bind_run]
  generalize x env s = r at hx hclean
  cases hx with
  | done step post => exact hf _ _ _ _ post ⟨step, h.base, hclean.work⟩
  | lost lost =>
    refine ⟨fun he => hclean.bounded ?_, hclean.work, fun hB d he => hclean.fault hB d ?_⟩
    · cases he
      rfl
    · cases he
      rfl

/-- A clean parser is run behind a track. -/
theorem next (h : Track B S b s seg ts) (hx : Reads S env x Q) (hclean : Tidy B S.Tokens (x env s))
    (hf : ∀ a s₁ seg₁ ts₁, Q a seg₁ ts₁ → Track B S b s₁ (seg ++ seg₁) (ts ++ ts₁) →
      Tidy B S.Tokens (f a env s₁)) : Tidy B S.Tokens ((x >>= f) env s) := by
  refine h.bind (Outcome.from_step h.toStep (hx s h.fits)) hclean ?_
  rintro a s₁ _ _ ⟨seg₁, ts₁, rfl, rfl, post⟩ h₁
  exact hf a s₁ seg₁ ts₁ post h₁

/-- A clean parser that passes one token is run behind a track. -/
theorem token {x : Parser Token} {f : Token → Parser β} {p : Token → Prop}
    (h : Track B S b s seg ts) (hx : Reads S env x (Passed p)) (hclean : Tidy B S.Tokens (x env s))
    (hf : ∀ t s₁, p t → Track B S b s₁ (seg ++ [t]) ts → Tidy B S.Tokens (f t env s₁)) :
    Tidy B S.Tokens ((x >>= f) env s) := by
  refine h.next hx hclean ?_
  rintro t s₁ _ _ ⟨ht, rfl, rfl⟩ h₁
  rw [List.append_nil] at h₁
  exact hf t s₁ ht h₁

/-- The workspace changes, and no alternative is given up. -/
theorem workspace {us : List Tree} {w : Workspace} (h : Track B S b s seg ts)
    (htable : w.operators = s.work.operators) (harena : Grows b.work.arena w.arena us)
    (hclean : B → w.Clean S.Tokens) : Track B S b { s with work := w } seg us :=
  ⟨h.toStep.workspace htable harena, h.base, hclean⟩

/-! ### Nodes -/

theorem noted {f : Unit → Parser β} {e : Event} (h : Track B S b s seg ts) (he : e.Clean S.Tokens)
    (hf : ∀ s₁, Track B S b s₁ seg ts → Tidy B S.Tokens (f () env s₁)) :
    Tidy B S.Tokens ((Parser.note e >>= f) env s) :=
  hf _ (h.workspace rfl h.arena fun hB => (h.clean hB).push he)

/-- A node is made over the trees `cs`. -/
theorem alloc {token : Token} {expr : Expr} {cs : List Tree} {f : NodeId → Parser β}
    (h : Track B S b s seg (cs ++ ts)) (hslots : expr.children = cs.map Tree.root)
    (hf : ∀ id s₁, Track B S b s₁ seg (.node id token expr cs :: ts) →
      Tidy B S.Tokens (f id env s₁)) : Tidy B S.Tokens ((Parser.alloc token expr >>= f) env s) :=
  hf _ _ (h.workspace rfl (h.arena.push token expr hslots) h.clean)

/-- A node without children is made. -/
theorem leaf {token : Token} {expr : Expr} {f : NodeId → Parser β} (h : Track B S b s seg ts)
    (hslots : expr.children = [])
    (hf : ∀ id s₁, Track B S b s₁ seg (.leaf id token expr :: ts) → Tidy B S.Tokens (f id env s₁)) :
    Tidy B S.Tokens ((Parser.alloc token expr >>= f) env s) := by
  have hall : Track B S b s seg ([] ++ ts) := h
  exact hall.alloc hslots hf

/-- A node is made over all trees. -/
theorem gather {token : Token} {expr : Expr} {cs : List Tree} {f : NodeId → Parser β}
    (h : Track B S b s seg cs) (hslots : expr.children = cs.map Tree.root)
    (hf : ∀ id s₁, Track B S b s₁ seg [.node id token expr cs] → Tidy B S.Tokens (f id env s₁)) :
    Tidy B S.Tokens ((Parser.alloc token expr >>= f) env s) := by
  have hall : Track B S b s seg (cs ++ []) := by rwa [List.append_nil]
  exact hall.alloc hslots hf

/-- Trees may be named in another order. -/
theorem perm {us : List Tree} (h : Track B S b s seg ts) (hus : ts.Perm us) :
    Track B S b s seg us :=
  ⟨h.toStep.perm hus, h.base, h.clean⟩

/-- A subtree is copied. -/
theorem duplicate {t u : Tree} {f : NodeId → Parser β} (h : Track B S b s seg ts) (ht : t ∈ ts)
    (hu : u ∈ t.subtrees)
    (hf : ∀ v s₁, u.IsCopy v → Track B S b s₁ seg (v :: ts) → Tidy B S.Tokens (f v.root env s₁)) :
    Tidy B S.Tokens ((Parser.duplicate u.root >>= f) env s) := by
  obtain ⟨a, v, hrun, hcopy, hgrows⟩ := duplicate_run h.arena ht hu
  rw [Parser.bind_run, Action.bind_run, Parser.duplicate, Parser.building_run, Workspace.onArena]
  simp only [hrun]
  refine hf v _ hcopy (h.workspace rfl ?_ h.clean)
  have hfront : (ts ++ [v]).Perm (v :: ts) := List.perm_append_comm
  exact (h.arena.append hgrows).perm hfront

/-- The contents of a root are overwritten with contents that have the same slots. -/
theorem overwrite {t : Tree} {expr : Expr} {f : Unit → Parser β}
    (h : Track B S b s seg (t :: ts)) (hslots : expr.children = t.expr.children)
    (hf : ∀ s₁, Track B S b s₁ seg (.node t.root t.token expr t.children :: ts) →
      Tidy B S.Tokens (f () env s₁)) :
    Tidy B S.Tokens ((Parser.building (Workspace.onArena (.change (·.setExpr t.root expr)))
      >>= f) env s) := by
  have hmem : t ∈ t :: ts := List.mem_cons_self
  have hrewrites : Rewrites s.work.arena (s.work.arena.setExpr t.root expr) t
      (.node t.root t.token expr t.children) :=
    .setExpr (h.arena.holds hmem) (h.arena.nodup_handles hmem) hslots
  exact hf _ (h.workspace rfl (h.arena.rewrite hrewrites) h.clean)

/-- The root of the first tree gets a tag. -/
theorem tagged {t : Tree} {tag : Tag} {f : Bool → Parser β} (h : Track B S b s seg (t :: ts))
    (hf : ∀ new s₁, Track B S b s₁ seg (t :: ts) → Tidy B S.Tokens (f new env s₁)) :
    Tidy B S.Tokens ((Parser.working (Workspace.tag t.root tag) >>= f) env s) := by
  have hholds := h.arena.holds List.mem_cons_self
  obtain ⟨tags, hnode⟩ := hholds.shows.node
  obtain ⟨new, a, htag⟩ : ∃ new a, s.work.arena.tag t.root tag = .ok (new, a) := by
    rw [Arena.tag, hnode, Except.map]
    exact ⟨_, _, rfl⟩
  have hrun : Workspace.tag t.root tag s.work = (.ok new, { s.work with arena := a }) := by
    simp only [Workspace.tag, Workspace.edit, Workspace.onArena, htag]
  rw [Parser.bind_run, Action.bind_run, Parser.working, Parser.building_run, Action.mapError, hrun]
  exact hf new _ (h.workspace rfl (h.arena.rewrite (.tag hholds htag)) h.clean)

end Track

/-! ## Settling -/

/-- Settling gives up no alternative. -/
theorem Workspace.Clean.settleN {w : Workspace} (fuel : Nat) (id : NodeId) (h : w.Clean T) :
    (Workspace.settleN fuel id w).2.Clean T := by
  let Keeps (w w' : Workspace) : Prop := w.Clean T → w'.Clean T
  have hbind : ∀ {ε α β : Type} {x : Action Workspace ε α} {f : α → Action Workspace ε β},
      (∀ w, Keeps w (x w).2) → (∀ a w, Keeps w (f a w).2) → ∀ w, Keeps w ((x >>= f) w).2 :=
    fun hx hf => Action.bind_rel (R := Keeps) (fun hab hbc ha => hbc (hab ha)) hx hf
  have hset : ∀ id b w, Keeps w (Workspace.setBinary id b w).2 := fun _ _ _ hw => hw
  let Noted (e : Event) : Action Workspace Stop Unit := Workspace.note e
  have hnote : ∀ operator lifted side w, Keeps w (Noted (.rotating operator lifted side) w).2 :=
    fun _ _ _ _ hw => hw.push trivial
  suffices hall : ∀ w, Keeps w (Workspace.settleN fuel id w).2 from hall w h
  induction fuel generalizing id with
  | zero => exact fun w hw => hw
  | succ fuel ih =>
    unfold Workspace.settleN
    refine hbind (fun w hw => hw) fun turn => ?_
    cases turn with
    | stay => exact fun w hw => hw
    | liftLeft node lifted =>
      refine hbind (hnote _ _ _) fun _ => hbind (hset _ _) fun _ => hbind (ih id) fun settled => ?_
      exact hbind (hset _ _) fun _ w hw => hw
    | liftRight node lifted =>
      refine hbind (hnote _ _ _) fun _ => hbind (hset _ _) fun _ => hbind (ih id) fun settled => ?_
      exact hbind (hset _ _) fun _ w hw => hw

/-- A binary node over two groupings is settled. -/
theorem Track.settle {j : Joint} {left right : Grouping}
    (h : Track B S b s seg ((Grouping.join j left right).tree :: ts))
    (hclosed : (Grouping.join j left right).Closed) :
    Tidy B S.Tokens (Parser.building (Workspace.settle j.id) env s) := by
  obtain ⟨w, hrun, hrewrites, htable⟩ := Workspace.settle_run h.arena List.mem_cons_self hclosed
  have hclean : B → (Workspace.settle j.id s.work).2.Clean S.Tokens :=
    fun hB => (h.clean hB).settleN _ _
  rw [hrun] at hclean
  rw [Parser.building_run, hrun]
  exact .ok hclean

/-! ## Safe parsers -/

/-- The parser is tidy wherever fewer than `n` tokens remain. -/
def Safe (B : Prop) (S : Setting) (env : ParserEnv) (n : Nat) (p : Parser α) : Prop :=
  ∀ s, S.Fits s → (B → s.work.Clean S.Tokens) → s.cursor.rest.length < n → Tidy B S.Tokens (p env s)

/-- Over fewer than no tokens nothing runs. -/
theorem safe_zero (p : Parser α) : Safe B S env 0 p := fun _ _ _ hn => absurd hn (Nat.not_lt_zero _)

/-- Operators that stay as they are may be taken for fixed. -/
theorem safe_of_fixed {p : Parser α} {n : Nat}
    (h : ∀ table, Safe B ⟨(· = table), S.Tokens⟩ env n p) : Safe B S env n p :=
  fun s hs => h s.work.operators s ⟨rfl, hs.tokens⟩

/-- A safe parser, run behind a track. -/
theorem Track.safe {p : Parser α} {n : Nat} (h : Track B S b s seg ts) (hp : Safe B S env n p)
    (hn : s.cursor.rest.length < n) : Tidy B S.Tokens (p env s) := hp s h.fits h.clean hn

/-- Behind a token one token less remains. -/
theorem Track.lt {n : Nat} (h : Track B S b s seg ts) (hn : b.cursor.rest.length < n + 1)
    (hseg : seg ≠ []) : s.cursor.rest.length < n := by
  have hlength := h.length_eq
  have hpassed : 0 < seg.length := List.length_pos_iff.mpr hseg
  omega

/-! ### Tokens -/

namespace Tidy

variable (hs : S.Fits s) (h : B → s.work.Clean S.Tokens)
include hs h

theorem expectOr {kind : TokenKind} {p : Token → Bool} {error : Token → Diagnostic}
    (herror : ∀ t, S.Tokens t → (error t).Fault S.Tokens) :
    Tidy B S.Tokens (Parser.expectOr kind p error env s) := by
  rw [Parser.expectOr, Parser.bind_run, Action.bind_run]
  cases hrest : s.cursor.rest with
  | nil =>
    rw [Parser.peek_run_nil hrest]
    exact failed h Diagnostic.fault_outOfTokens
  | cons t rest =>
    rw [Parser.peek_run hrest]
    refine cond (fun _ => ?_) fun _ => fail h (herror t (hs.tokens t (hrest ▸ List.mem_cons_self)))
    rw [Parser.consume_run hrest]
    exact ok h

theorem expect (kind : TokenKind) : Tidy B S.Tokens (Parser.expect kind env s) :=
  expectOr hs h fun _ ht => Diagnostic.fault_unexpected ht _

theorem expectKeyword (word : String) : Tidy B S.Tokens (Parser.expectKeyword word env s) :=
  expectOr hs h fun _ ht => Diagnostic.fault_unexpected ht _

theorem expectAny (kinds : List TokenKind) (consumes : Bool) :
    Tidy B S.Tokens (Parser.expectAny kinds consumes env s) := by
  rw [Parser.expectAny, Parser.bind_run, Action.bind_run]
  cases hrest : s.cursor.rest with
  | nil =>
    rw [Parser.peek_run_nil hrest]
    exact failed h Diagnostic.fault_outOfTokens
  | cons t rest =>
    rw [Parser.peek_run hrest]
    have ht : S.Tokens t := hs.tokens t (hrest ▸ List.mem_cons_self)
    refine cond (fun _ => cond (fun _ => ?_) fun _ => pure h) fun _ =>
      fail h (Diagnostic.fault_unexpected ht _)
    rw [Parser.consume_run hrest]
    exact ok h

end Tidy

namespace Track

variable {f : Token → Parser β}

/-- The next token is consumed. -/
theorem consume (h : Track B S b s seg ts)
    (hf : ∀ t s₁, Track B S b s₁ (seg ++ [t]) ts → Tidy B S.Tokens (f t env s₁)) :
    Tidy B S.Tokens ((Parser.consume >>= f) env s) := by
  rw [Parser.bind_run, Action.bind_run]
  cases hrest : s.cursor.rest with
  | nil =>
    rw [Parser.consume_run_nil hrest]
    exact .failed h.clean Diagnostic.fault_outOfTokens
  | cons t rest =>
    rw [Parser.consume_run hrest]
    exact hf t _ ⟨h.toStep.pass hrest, h.base, h.clean⟩

theorem expect (kind : TokenKind) (h : Track B S b s seg ts)
    (hf : ∀ t s₁, t.is kind → Track B S b s₁ (seg ++ [t]) ts → Tidy B S.Tokens (f t env s₁)) :
    Tidy B S.Tokens ((Parser.expect kind >>= f) env s) :=
  h.token (Parser.expect_reads kind) (.expect h.fits h.clean kind) hf

theorem expectKeyword (word : String) (h : Track B S b s seg ts)
    (hf : ∀ t s₁, t.isValue .keyword word → Track B S b s₁ (seg ++ [t]) ts →
      Tidy B S.Tokens (f t env s₁)) : Tidy B S.Tokens ((Parser.expectKeyword word >>= f) env s) :=
  h.token (Parser.expectKeyword_reads word) (.expectKeyword h.fits h.clean word) hf

theorem expectAny (kinds : List TokenKind) (h : Track B S b s seg ts)
    (hf : ∀ t s₁, Track B S b s₁ (seg ++ [t]) ts → Tidy B S.Tokens (f t env s₁)) :
    Tidy B S.Tokens ((Parser.expectAny kinds true >>= f) env s) :=
  h.token (Parser.expectAny_reads kinds) (.expectAny h.fits h.clean kinds true)
    fun t s₁ _ h₁ => hf t s₁ h₁

end Track

/-! ### Giving up and phases -/

namespace Parser

variable {p : Parser α} {n : Nat}

theorem attempt_safe (hp : Safe B S env n p) : Safe B S env n (attempt p) := by
  intro s hs hclean hn
  have hrun := hp s hs hclean hn
  unfold attempt
  generalize p env s = r at hrun
  match r, hrun with
  | (.ok a, s'), hrun => exact .ok hrun.work
  | (.error (.failed d), s'), hrun =>
    exact .ok fun hB => (hrun.work hB).push (hrun.fault hB d rfl)
  | (.error .exhausted, s'), hrun => exact absurd rfl hrun.bounded

theorem inPhase_safe (hp : Safe B S env n p) (inner : Phase) :
    Safe B S env n (inPhase inner p) := by
  intro s hs hclean hn
  have hrun := hp { s with phase := inner } ⟨hs.tables, hs.tokens⟩ hclean hn
  unfold inPhase
  generalize p env { s with phase := inner } = r at hrun
  exact ⟨hrun.bounded, hrun.work, hrun.fault⟩

end Parser

/-! ### Loops -/

/-- A round that is not the last passes a token. -/
def Advances : Parser.Round β γ → List Token → List Tree → Prop
  | .more _, seg, _ => seg ≠ []
  | .done _, _, _ => True

namespace Track

/-- A loop whose rounds are clean and, but for the last one, pass a token. -/
theorem loop {I : β → List Token → List Tree → Prop} {round : β → Parser (Parser.Round β γ)}
    (hround : ∀ x s seg ts, I x seg ts → Track B S b s seg ts → Tidy B S.Tokens (round x env s))
    (hmore : ∀ x s seg ts, I x seg ts → Track B S b s seg ts →
      Outcome S b (Rounds (fun y seg' ts' => I y seg' ts' ∧ seg.length < seg'.length)
        fun _ _ _ => True) (round x env s))
    {x : β} (h : Track B S b s seg ts) (hI : I x seg ts) :
    Tidy B S.Tokens (Parser.loop round x env s) := by
  unfold Parser.loop
  have hfuel : s.cursor.rest.length < s.cursor.rest.length + 1 := Nat.lt_succ_self _
  generalize s.cursor.rest.length + 1 = fuel at hfuel
  induction fuel generalizing x s seg ts with
  | zero => exact absurd hfuel (Nat.not_lt_zero _)
  | succ fuel ih =>
    rw [Parser.loopN]
    refine h.bind (hmore x s seg ts hI h) (hround x s seg ts hI h) fun r s₁ seg₁ ts₁ post h₁ => ?_
    cases r with
    | done result => exact .pure h₁.clean
    | more next =>
      obtain ⟨hnext, hlonger⟩ := post
      apply ih h₁ hnext
      have hbefore := h.length_eq
      have hbehind := h₁.length_eq
      omega

end Track

namespace Parser

variable {n : Nat}

theorem loop_safe {round : β → Parser (Round β γ)} {x : β} (hround : ∀ x, Safe B S env n (round x))
    (hmore : ∀ x, Reads S env (round x) Advances) : Safe B S env n (loop round x) := by
  intro s hs hclean hn
  let Any (_ : β) (_ : List Token) (_ : List Tree) : Prop := True
  refine (Track.refl hs hclean).loop (I := Any) ?_ ?_ trivial
  · intro x s₁ seg ts _ h
    have hlength := h.length_eq
    exact h.safe (hround x) (by omega)
  · intro x s₁ seg ts _ h
    refine (Outcome.from_step h.toStep (hmore x s₁ h.fits)).mono ?_
    rintro r _ _ ⟨seg₁, ts₁, rfl, rfl, post⟩
    cases r with
    | done result => trivial
    | more next =>
      refine ⟨trivial, ?_⟩
      have hpassed : 0 < seg₁.length := List.length_pos_iff.mpr post
      rw [List.length_append]
      omega

/-! ### Lists -/

variable {element : Parser NodeId} {G : Language.Phrase}

theorem delimited_safe (hreads : Reads S env element (One G)) (helement : Safe B S env n element) :
    Safe B S env n (delimited element .comma) := by
  intro s hs hclean hn
  unfold delimited
  have hstart := Track.refl hs hclean
  refine hstart.next hreads (hstart.safe helement hn) fun id s₁ seg₁ ts₁ _ h₁ => ?_
  have hlength := h₁.length_eq
  refine h₁.safe (loop_safe (n := n) (fun items => ?_) fun items => ?_) (by omega)
  · intro s₂ hs₂ hclean₂ hn₂
    have h₂ := Track.refl hs₂ hclean₂
    rw [check_bind]
    refine .cond (fun _ => ?_) fun _ => .pure h₂.clean
    refine h₂.consume fun comma s₃ h₃ => ?_
    have hlength := h₃.length_eq
    refine h₃.next hreads (h₃.safe helement (by omega)) fun item s₄ seg₄ ts₄ _ h₄ => ?_
    exact .pure h₄.clean
  · intro s₂ hs₂
    rw [check_bind]
    refine .cond (fun _ => ?_) fun _ => .pure (Step.refl hs₂) trivial
    refine (Step.refl hs₂).consume fun comma _ s₃ _ h₃ => ?_
    refine h₃.next hreads fun item s₄ seg₄ ts₄ _ h₄ => ?_
    exact .pure h₄ (by simp [Advances])

theorem parenthesized_safe {opening closing : TokenKind} (hreads : Reads S env element (One G))
    (helement : Safe B S env n element) :
    Safe B S env (n + 1) (parenthesized opening closing element) := by
  intro s hs hclean hn
  unfold parenthesized
  refine (Track.refl hs hclean).expect opening fun l s₁ _ h₁ => ?_
  have hlength := h₁.length_eq
  rw [List.nil_append, List.length_singleton] at hlength
  refine h₁.next hreads (h₁.safe helement (by omega)) fun id s₂ seg₂ ts₂ _ h₂ => ?_
  exact h₂.expect closing fun r s₃ _ h₃ => .pure h₃.clean

theorem parenthesizedList_safe {opening closing : TokenKind} (hreads : Reads S env element (One G))
    (helement : Safe B S env n element) :
    Safe B S env (n + 1) (parenthesizedList opening closing element .comma) := by
  intro s hs hclean hn
  unfold parenthesizedList
  refine (Track.refl hs hclean).expect opening fun l s₁ _ h₁ => ?_
  have hlength := h₁.length_eq
  rw [List.nil_append, List.length_singleton] at hlength
  rw [check_bind]
  refine .cond (fun _ => h₁.consume fun r s₂ h₂ => .pure h₂.clean) fun _ => ?_
  refine h₁.next (delimited_reads hreads) (h₁.safe (delimited_safe hreads helement) (by omega))
    fun ids s₂ seg₂ ts₂ _ h₂ => ?_
  exact h₂.expect closing fun r s₃ _ h₃ => .pure h₃.clean

/-! ### Choices -/

theorem attemptFrom_safe {propagate : Bool} {rules : List Rule} {last : Option Diagnostic}
    {Q : NodeId → List Token → List Tree → Prop} (hreads : ∀ r ∈ rules, Reads S env r.parse Q)
    (hrules : ∀ r ∈ rules, Safe B S env n r.parse)
    (hlast : B → ∀ d, last = some d → d.Fault S.Tokens) :
    Safe B S env n (attemptFrom propagate rules last) := by
  induction rules generalizing last with
  | nil =>
    intro s _ hclean _
    cases last with
    | none => exact .pure hclean
    | some d =>
      cases propagate with
      | true => exact .stopped hclean fun hB => hlast hB d rfl
      | false => exact .pure hclean
  | cons r rules ih =>
    intro s hs hclean hn
    have hrun := hrules r List.mem_cons_self s hs hclean hn
    have hread := hreads r List.mem_cons_self s hs
    unfold attemptFrom
    dsimp only
    generalize r.parse env s = out at hrun hread
    cases hread with
    | done _ _ => exact .ok hrun.work
    | @lost e s' lost =>
      cases e with
      | exhausted => exact absurd rfl hrun.bounded
      | failed d =>
        have hd : B → d.Fault S.Tokens := fun hB => hrun.fault hB d rfl
        refine ih (fun r' hr' => hreads r' (List.mem_cons_of_mem _ hr'))
          (fun r' hr' => hrules r' (List.mem_cons_of_mem _ hr')) ?_ _ ⟨lost.tables, hs.tokens⟩
          (fun hB => (hrun.work hB).push (hd hB)) hn
        intro hB d' hd'
        cases hd'
        exact hd hB

/-- The failure when no rule applies is a fault. -/
theorem noRule_fault {rules : List Rule} {tokens : List Token} {t : Token} {expected : String}
    (ht : S.Tokens t) : (noRule rules tokens t expected).Fault S.Tokens := by
  unfold noRule
  split
  · exact Diagnostic.fault_of_span rfl rfl ht
  · exact Diagnostic.fault_unexpected ht expected

theorem dispatch_safe {rules : List Rule} {expected : String}
    {Q : NodeId → List Token → List Tree → Prop} (hreads : ∀ r ∈ rules, Reads S env r.parse Q)
    (hrules : ∀ r ∈ rules, Safe B S env n r.parse) : Safe B S env n (dispatch rules expected) := by
  intro s hs hclean hn
  unfold dispatch
  rw [remaining_bind]
  have hmem : ∀ r ∈ rules.filter (·.accepts s.cursor.rest), r ∈ rules :=
    fun r hr => List.mem_of_mem_filter hr
  generalize rules.filter (·.accepts s.cursor.rest) = candidates at hmem
  cases candidates with
  | nil =>
    dsimp only
    rw [bind_run, Action.bind_run]
    cases hrest : s.cursor.rest with
    | nil =>
      rw [peek_run_nil hrest]
      exact .failed hclean Diagnostic.fault_outOfTokens
    | cons t rest =>
      rw [peek_run hrest]
      exact .fail hclean (noRule_fault (hs.tokens t (hrest ▸ List.mem_cons_self)))
  | cons r candidates =>
    have hstart := Track.refl hs hclean
    have hcandidates : Reads S env (attemptAny (r :: candidates) true) (Attempted Q) :=
      attemptFrom_reads fun r' hr' => hreads r' (hmem r' hr')
    have hsafe : Safe B S env n (attemptAny (r :: candidates) true) :=
      attemptFrom_safe (fun r' hr' => hreads r' (hmem r' hr'))
        (fun r' hr' => hrules r' (hmem r' hr')) fun _ _ h => nomatch h
    refine hstart.next hcandidates (hstart.safe hsafe hn) fun o s₁ seg ts _ h₁ => ?_
    cases o with
    | some id => exact .pure h₁.clean
    | none => exact .fail h₁.clean Diagnostic.fault_outOfTokens

theorem choice_safe {read : Production → Parser NodeId} {options : List Production}
    {expected : String} {Q : NodeId → List Token → List Tree → Prop}
    (hreads : ∀ p ∈ options, Reads S env (read p) Q)
    (hread : ∀ p ∈ options, Safe B S env n (read p)) :
    Safe B S env n (choice read options expected) := by
  refine dispatch_safe (Q := Q) (fun r hr => ?_) fun r hr => ?_
  · obtain ⟨p, hp, rfl⟩ := List.mem_map.mp hr
    exact hreads p hp
  · obtain ⟨p, hp, rfl⟩ := List.mem_map.mp hr
    exact hread p hp

end Parser

end ApiSyntax
