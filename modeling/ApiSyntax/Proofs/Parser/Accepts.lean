/-
  ApiSyntax/Proofs/Parser/Accepts.lean --- runs that succeed and where they stop.

  `Accepts` says that a run succeeds and what remains behind it.  A parser is `Complete`
  for a phrase when it accepts every such phrase, whatever comes behind it, as long as
  what comes behind could not be a continuation.  The length of the phrase is bounded,
  since the productions of the grammar are read on a bound.
-/
import ApiSyntax.Proofs.Parser.Combinators

set_option autoImplicit false

namespace ApiSyntax

open ApiSyntax.Arena ApiSyntax.Language

variable {S : Setting} {α β γ : Type} {env : ParserEnv} {b s : ParserState}
  {seg rest mid : List Token} {ts : List Tree}

/-! ## Acceptance -/

/-- The run succeeds with such a result, and `rest` remains. -/
def Accepts (S : Setting) (x : Parser α) (env : ParserEnv) (s : ParserState) (rest : List Token)
    (P : α → ParserState → Prop) : Prop :=
  ∃ a s', x env s = (.ok a, s') ∧ s'.cursor.rest = rest ∧ S.Fits s' ∧ P a s'

/-- Any result. -/
def AnyResult : α → ParserState → Prop := fun _ _ => True

/-- A run that is known to succeed has the outcome that its parser has. -/
theorem Outcome.of_run {x : Parser α} {a : α} {s' : ParserState}
    {Q : α → List Token → List Tree → Prop} (h : Outcome S b Q (x env s))
    (hrun : x env s = (.ok a, s')) : ∃ seg ts, Step S b s' seg ts ∧ Q a seg ts := by
  rw [hrun] at h
  exact h.of_ok

namespace Accepts

variable {x : Parser α} {f : α → Parser β} {P : α → ParserState → Prop}
  {R : β → ParserState → Prop}

theorem pure {a : α} (hs : S.Fits s) (hrest : s.cursor.rest = rest) (hP : P a s) :
    Accepts S (Pure.pure a : Parser α) env s rest P := ⟨a, s, rfl, hrest, hs, hP⟩

theorem mono {P' : α → ParserState → Prop} (h : Accepts S x env s rest P)
    (hP : ∀ a s', P a s' → P' a s') : Accepts S x env s rest P' := by
  obtain ⟨a, s', hrun, hrest, hs', ha⟩ := h
  exact ⟨a, s', hrun, hrest, hs', hP a s' ha⟩

theorem any (h : Accepts S x env s rest P) : Accepts S x env s rest AnyResult :=
  h.mono fun _ _ _ => trivial

/-- A run that is accepted, then what follows from its result. -/
theorem bind (hx : Accepts S x env s mid P)
    (hf : ∀ a s', S.Fits s' → s'.cursor.rest = mid → P a s' → Accepts S (f a) env s' rest R) :
    Accepts S (x >>= f) env s rest R := by
  obtain ⟨a, s', hrun, hrest, hs', hP⟩ := hx
  obtain ⟨c, s'', hrun', hrest', hs'', hR⟩ := hf a s' hs' hrest hP
  refine ⟨c, s'', ?_, hrest', hs'', hR⟩
  rw [Parser.bind_run, Action.bind_run, hrun]
  exact hrun'

/-- A run that is accepted, then what follows from its result and from its outcome. -/
theorem after {Q : α → List Token → List Tree → Prop} (hx : Accepts S x env s mid P)
    (hout : Outcome S b Q (x env s))
    (hf : ∀ a s' seg ts, Q a seg ts → Step S b s' seg ts → s'.cursor.rest = mid → P a s' →
      Accepts S (f a) env s' rest R) : Accepts S (x >>= f) env s rest R := by
  obtain ⟨a, s', hrun, hrest, hs', hP⟩ := hx
  obtain ⟨seg, ts, step, post⟩ := hout.of_run hrun
  obtain ⟨c, s'', hrun', hrest', hs'', hR⟩ := hf a s' seg ts post step hrest hP
  refine ⟨c, s'', ?_, hrest', hs'', hR⟩
  rw [Parser.bind_run, Action.bind_run, hrun]
  exact hrun'

/-- A parser is run behind a step and accepted, then what follows from what it reads. -/
theorem next {Q : α → List Token → List Tree → Prop} (hx : Accepts S x env s mid P)
    (h : Step S b s seg ts) (hreads : Reads S env x Q)
    (hf : ∀ a s' seg₁ ts₁, Q a seg₁ ts₁ → Step S b s' (seg ++ seg₁) (ts ++ ts₁) →
      s'.cursor.rest = mid → P a s' → Accepts S (f a) env s' rest R) :
    Accepts S (x >>= f) env s rest R := by
  refine hx.after (Outcome.from_step h (hreads s h.fits)) fun a s' seg' ts' post step => ?_
  obtain ⟨seg₁, ts₁, rfl, rfl, post⟩ := post
  exact hf a s' seg₁ ts₁ post step

theorem of_eq {y : Parser α} {s₁ : ParserState} (hy : Accepts S y env s₁ rest P)
    (h : x env s = y env s₁) : Accepts S x env s rest P := by
  obtain ⟨a, s', hrun, hy⟩ := hy
  exact ⟨a, s', h.trans hrun, hy⟩

/-- A question that is decided on the way. -/
theorem cond {c : Prop} [Decidable c] {y : Parser α}
    (hx : c → Accepts S x env s rest P) (hy : ¬c → Accepts S y env s rest P) :
    Accepts S (if c then x else y : Parser α) env s rest P := by
  by_cases hc : c
  · rw [if_pos hc]
    exact hx hc
  · rw [if_neg hc]
    exact hy hc

end Accepts

/-- The run comes down to that of such a parser, with `rest` ahead of it. -/
def Leads (S : Setting) (x : Parser α) (env : ParserEnv) (s : ParserState) (rest : List Token)
    (Y : Parser α → Prop) : Prop :=
  ∃ y s', x env s = y env s' ∧ S.Fits s' ∧ s'.cursor.rest = rest ∧ Y y

theorem Leads.here {x : Parser α} {Y : Parser α → Prop} (hs : S.Fits s)
    (hrest : s.cursor.rest = rest) (hx : Y x) : Leads S x env s rest Y :=
  ⟨x, s, rfl, hs, hrest, hx⟩

/-- A run that is accepted, then what its result leads to. -/
theorem Accepts.leads {x : Parser α} {f : α → Parser β} {P : α → ParserState → Prop}
    {Y : Parser β → Prop} (hx : Accepts S x env s mid P)
    (hf : ∀ a s', S.Fits s' → s'.cursor.rest = mid → P a s' → Leads S (f a) env s' rest Y) :
    Leads S (x >>= f) env s rest Y := by
  obtain ⟨a, s', hrun, hrest, hs', hP⟩ := hx
  obtain ⟨y, s'', heq, hy⟩ := hf a s' hs' hrest hP
  refine ⟨y, s'', ?_, hy⟩
  rw [Parser.bind_run, Action.bind_run, hrun]
  exact heq

theorem Leads.accepts {x : Parser α} {P : α → ParserState → Prop} {Y : Parser α → Prop}
    (h : Leads S x env s mid Y)
    (hy : ∀ y s', S.Fits s' → s'.cursor.rest = mid → Y y → Accepts S y env s' rest P) :
    Accepts S x env s rest P := by
  obtain ⟨y, s', heq, hs', hrest, hY⟩ := h
  exact (hy y s' hs' hrest hY).of_eq heq

/-! ## Single steps -/

theorem Setting.Fits.pass {t : Token} {phase : Phase} (hs : S.Fits s)
    (hrest : s.cursor.rest = t :: rest) :
    S.Fits ⟨⟨t :: s.cursor.consumed, rest⟩, phase, s.work⟩ :=
  ⟨hs.tables, fun u hu => hs.tokens u (by rw [hrest]; exact .tail _ hu)⟩

namespace Parser

variable {R : β → ParserState → Prop} {t : Token}

theorem consume_accepts (hs : S.Fits s) (hrest : s.cursor.rest = t :: rest) :
    Accepts S consume env s rest (fun u _ => u = t) :=
  ⟨t, _, consume_run hrest, rfl, ⟨hs.tables, (hs.pass hrest).tokens⟩, rfl⟩

theorem expectOr_accepts {kind : TokenKind} {p : Token → Bool} {error : Token → Diagnostic}
    (hs : S.Fits s) (hrest : s.cursor.rest = t :: rest) (ht : t.is kind) (hp : p t) :
    Accepts S (expectOr kind p error) env s rest (fun u _ => u = t) := by
  refine (consume_accepts hs hrest).of_eq ?_
  have hboth : (t.is kind && p t) = true := Bool.and_eq_true_iff.mpr ⟨ht, hp⟩
  rw [expectOr, bind_run, Action.bind_run, peek_run hrest]
  dsimp only
  rw [if_pos hboth]

theorem expect_accepts {kind : TokenKind} (hs : S.Fits s) (hrest : s.cursor.rest = t :: rest)
    (ht : t.is kind) : Accepts S (expect kind) env s rest (fun u _ => u = t) :=
  expectOr_accepts hs hrest ht rfl

theorem expectKeyword_accepts {word : String} (hs : S.Fits s)
    (hrest : s.cursor.rest = t :: rest) (ht : t.isValue .keyword word) :
    Accepts S (expectKeyword word) env s rest (fun u _ => u = t) := by
  obtain ⟨hkind, hvalue⟩ := Bool.and_eq_true_iff.mp ht
  exact expectOr_accepts hs hrest hkind hvalue

theorem expectAny_accepts {kinds : List TokenKind} (hs : S.Fits s)
    (hrest : s.cursor.rest = t :: rest) (ht : kinds.any t.is) :
    Accepts S (expectAny kinds true) env s rest (fun u _ => u = t) := by
  refine (consume_accepts hs hrest).of_eq ?_
  rw [expectAny, bind_run, Action.bind_run, peek_run hrest]
  dsimp only
  rw [if_pos ht, if_pos rfl]

theorem alloc_accepts {token : Token} {expr : Expr} (hs : S.Fits s)
    (hrest : s.cursor.rest = rest) :
    Accepts S (alloc token expr) env s rest (fun id s' => s'.work.arena.expr id = .ok expr) := by
  refine ⟨s.work.arena.next, _, rfl, hrest, ⟨hs.tables, hs.tokens⟩, ?_⟩
  have hfound := Arena.node?_push_next s.work.arena token expr
  simp only [Arena.expr, Arena.node, hfound, Except.map]

/-- A binary node over two groupings can be settled. -/
theorem settle_accepts {j : Joint} {left right : Grouping}
    (h : Step S b s seg ((Grouping.join j left right).tree :: ts))
    (hclosed : (Grouping.join j left right).Closed) (hrest : s.cursor.rest = rest) :
    Accepts S (building (Workspace.settle j.id)) env s rest AnyResult := by
  obtain ⟨w, hrun, _, htable⟩ := Workspace.settle_run h.arena List.mem_cons_self hclosed
  have hfits : S.Fits { s with work := w } := ⟨htable ▸ h.fits.tables, h.fits.tokens⟩
  refine ⟨(Grouping.graft s.work.operators j left right).root, { s with work := w }, ?_, hrest,
    hfits, trivial⟩
  rw [building_run, hrun]

theorem inPhase_accepts {x : Parser α} {inner : Phase} {Q : α → Prop}
    (h : Accepts S x env { s with phase := inner } rest fun a _ => Q a) :
    Accepts S (inPhase inner x) env s rest fun a _ => Q a := by
  obtain ⟨a, s', hrun, hrest, hs', hQ⟩ := h
  refine ⟨a, { s' with phase := s.phase }, ?_, hrest, ⟨hs'.tables, hs'.tokens⟩, hQ⟩
  rw [inPhase, hrun]

end Parser

/-! ## Questions -/

namespace Accepts

variable {R : β → ParserState → Prop}

theorem check {kind : TokenKind} {f : Bool → Parser β} {v : Bool} (hv : s.cursor.check kind = v)
    (hf : Accepts S (f v) env s rest R) : Accepts S (Parser.check kind >>= f) env s rest R :=
  hf.of_eq (by rw [Parser.check_bind, hv])

theorem checkKeyword {word : String} {f : Bool → Parser β} {v : Bool}
    (hv : s.cursor.checkKeyword word = v) (hf : Accepts S (f v) env s rest R) :
    Accepts S (Parser.checkKeyword word >>= f) env s rest R :=
  hf.of_eq (by rw [Parser.checkKeyword_bind, hv])

theorem startToken {f : Token → Parser β} (hf : Accepts S (f s.cursor.startToken) env s rest R) :
    Accepts S (Parser.startToken >>= f) env s rest R := hf.of_eq (Parser.startToken_bind f)

theorem remaining {f : List Token → Parser β} (hf : Accepts S (f s.cursor.rest) env s rest R) :
    Accepts S (Parser.remaining >>= f) env s rest R := hf.of_eq (Parser.remaining_bind f)

theorem given {f : ParserEnv → Parser β} (hf : Accepts S (f env) env s rest R) :
    Accepts S (Parser.env >>= f) env s rest R := hf.of_eq (Parser.env_bind f)

theorem state {f : ParserState → Parser β} (hf : Accepts S (f s) env s rest R) :
    Accepts S (Parser.state >>= f) env s rest R := hf.of_eq (Parser.state_bind f)

theorem atCursor {g : Cursor → α} {f : α → Parser β}
    (hf : Accepts S (f (g s.cursor)) env s rest R) :
    Accepts S (Parser.atCursor g >>= f) env s rest R := hf.of_eq (Parser.atCursor_bind g f)

theorem atArena {g : Arena → Except Diagnostic α} {a : α} {f : α → Parser β}
    (hg : g s.work.arena = .ok a) (hf : Accepts S (f a) env s rest R) :
    Accepts S (Parser.atArena g >>= f) env s rest R := hf.of_eq (Parser.atArena_bind hg f)

/-- A record of what happened does not touch what is read. -/
theorem note {e : Event} {f : Unit → Parser β} (hs : S.Fits s) (hrest : s.cursor.rest = mid)
    (hf : ∀ s', S.Fits s' → s'.cursor.rest = mid → Accepts S (f ()) env s' rest R) :
    Accepts S (Parser.note e >>= f) env s rest R := hf _ ⟨hs.tables, hs.tokens⟩ hrest

/-- A subtree of what was made can be copied. -/
theorem duplicate {t u : Tree} {f : NodeId → Parser β} (h : Step S b s seg ts) (ht : t ∈ ts)
    (hu : u ∈ t.subtrees) (hrest : s.cursor.rest = mid)
    (hf : ∀ v s', Step S b s' seg (v :: ts) → s'.cursor.rest = mid →
      Accepts S (f v.root) env s' rest R) :
    Accepts S (Parser.duplicate u.root >>= f) env s rest R := by
  obtain ⟨a, v, hrun, _, hgrows⟩ := duplicate_run h.arena ht hu
  have hfront : (ts ++ [v]).Perm (v :: ts) := List.perm_append_comm
  have hstep := h.workspace (w := { s.work with arena := a }) rfl
    ((h.arena.append hgrows).perm hfront)
  refine (hf v _ hstep hrest).of_eq ?_
  rw [Parser.bind_run, Action.bind_run, Parser.duplicate, Parser.building_run, Workspace.onArena]
  simp only [hrun]

theorem ofExcept {x : Except Diagnostic α} {a : α} {f : α → Parser β} (hx : x = .ok a)
    (hf : Accepts S (f a) env s rest R) : Accepts S (Parser.ofExcept x >>= f) env s rest R :=
  hf.of_eq (Parser.ofExcept_bind hx f)

end Accepts

/-! ## Failures -/

/-- The run fails, and not for want of a bound. -/
def Fails (x : Parser α) (env : ParserEnv) (s : ParserState) : Prop :=
  ∃ d s', x env s = (.error (.failed d), s')

theorem Fails.bind {x : Parser α} {f : α → Parser β} (h : Fails x env s) :
    Fails (x >>= f) env s := by
  obtain ⟨d, s', hrun⟩ := h
  refine ⟨d, s', ?_⟩
  rw [Parser.bind_run, Action.bind_run, hrun]

/-- A run that is accepted, then one that fails. -/
theorem Accepts.bind_fails {x : Parser α} {f : α → Parser β} {P : α → ParserState → Prop}
    (hx : Accepts S x env s mid P)
    (hf : ∀ a s', s'.cursor.rest = mid → P a s' → Fails (f a) env s') :
    Fails (x >>= f) env s := by
  obtain ⟨a, s', hrun, hrest, _, hP⟩ := hx
  obtain ⟨d, s'', hfail⟩ := hf a s' hrest hP
  refine ⟨d, s'', ?_⟩
  rw [Parser.bind_run, Action.bind_run, hrun]
  exact hfail

theorem Fails.check {kind : TokenKind} {f : Bool → Parser β} {v : Bool}
    (hv : s.cursor.check kind = v) (hf : Fails (f v) env s) :
    Fails (Parser.check kind >>= f) env s := by
  obtain ⟨d, s', hrun⟩ := hf
  refine ⟨d, s', ?_⟩
  rwa [Parser.check_bind, hv]

theorem Parser.expectOr_fails {kind : TokenKind} {p : Token → Bool} {error : Token → Diagnostic}
    (h : ∀ t rest, s.cursor.rest = t :: rest → (t.is kind && p t) = false) :
    Fails (Parser.expectOr kind p error) env s := by
  cases hrest : s.cursor.rest with
  | nil =>
    refine ⟨.outOfTokens, s, ?_⟩
    rw [Parser.expectOr, Parser.bind_run, Action.bind_run, Parser.peek_run_nil hrest]
  | cons t rest =>
    refine ⟨error t, s, ?_⟩
    rw [Parser.expectOr, Parser.bind_run, Action.bind_run, Parser.peek_run hrest]
    dsimp only
    rw [if_neg (by simp [h t rest hrest])]
    rfl

theorem Parser.expect_fails {kind : TokenKind} (h : s.cursor.check kind = false) :
    Fails (Parser.expect kind) env s := by
  refine Parser.expectOr_fails fun t rest hrest => ?_
  rw [Cursor.check, hrest] at h
  exact Bool.and_eq_false_imp.mpr fun ht => absurd ht (by simpa using h)

theorem Parser.expectKeyword_fails {word : String} (h : s.cursor.checkKeyword word = false) :
    Fails (Parser.expectKeyword word) env s := by
  refine Parser.expectOr_fails fun t rest hrest => ?_
  rw [Cursor.checkKeyword, Cursor.checkValue, hrest] at h
  exact h

/-- An attempt that fails gives its place back. -/
theorem Parser.attempt_fails {x : Parser α} {Q : α → List Token → List Tree → Prop}
    (hreads : Reads S env x Q) (hs : S.Fits s) (hrest : s.cursor.rest = rest)
    (h : Fails x env s) : Accepts S (Parser.attempt x) env s rest (fun o _ => o = none) := by
  obtain ⟨d, s', hrun⟩ := h
  have hlost := hreads s hs
  rw [hrun] at hlost
  cases hlost with
  | lost lost =>
    have hback : Parser.attempt x env s = (.ok none, { s with
        work := { s'.work with events := s'.work.events.push (.rewound s.cursor.index d) } }) := by
      rw [Parser.attempt, hrun]
    exact ⟨none, _, hback, hrest, ⟨lost.tables, hs.tokens⟩, rfl⟩

/-- An attempt that succeeds. -/
theorem Parser.attempt_accepts {x : Parser α} {P : α → ParserState → Prop}
    (h : Accepts S x env s rest P) :
    Accepts S (Parser.attempt x) env s rest (fun o s' => ∃ a, o = some a ∧ P a s') := by
  obtain ⟨a, s', hrun, hrest, hs', hP⟩ := h
  refine ⟨some a, s', ?_, hrest, hs', a, rfl, hP⟩
  rw [Parser.attempt, hrun]

/-! ## What may come behind -/

/-- The next token, if there is one, is of none of these kinds. -/
def Stops (kinds : List TokenKind) (rest : List Token) : Prop :=
  ∀ t, rest.head? = some t → ∀ kind ∈ kinds, t.is kind = false

theorem stops_nil {kinds : List TokenKind} : Stops kinds [] := fun _ hhead => nomatch hhead

theorem stops_of_is {kinds : List TokenKind} {t : Token} {kind : TokenKind} (ht : t.is kind)
    (hkinds : ∀ other ∈ kinds, kind.same other = false) : Stops kinds (t :: rest) := by
  intro u hu other hother
  cases hu
  rw [Token.is_of_is ht]
  exact hkinds other hother

theorem Stops.check {kinds : List TokenKind} {c : Cursor} (h : Stops kinds c.rest)
    {kind : TokenKind} (hkind : kind ∈ kinds) : c.check kind = false := by
  unfold Cursor.check
  cases hhead : c.rest.head? with
  | none => rfl
  | some t => exact h t hhead kind hkind

theorem Stops.subset {kinds kinds' : List TokenKind} (h : Stops kinds rest)
    (hsub : ∀ kind ∈ kinds', kind ∈ kinds) : Stops kinds' rest :=
  fun t ht kind hkind => h t ht kind (hsub kind hkind)

theorem check_of_rest {t : Token} {kind : TokenKind} (hrest : s.cursor.rest = t :: rest)
    (ht : t.is kind) : s.cursor.check kind = true := Cursor.check_iff.mpr ⟨t, rest, hrest, ht⟩

/-- A token of one kind is of no other kind. -/
theorem check_of_other {t : Token} {kind other : TokenKind} (hrest : s.cursor.rest = t :: rest)
    (ht : t.is kind) (hother : kind.same other = false) : s.cursor.check other = false := by
  rw [Cursor.check, hrest, List.head?_cons, Option.any_some, Token.is_of_is ht, hother]

/-- Such phrases start with a token of one of these kinds. -/
def Starts (kinds : List TokenKind) (G : List Token → β → Prop) : Prop :=
  ∀ seg t, G seg t → ∃ a rest, seg = a :: rest ∧ ∃ kind ∈ kinds, a.is kind

theorem Starts.stops {kinds kinds' : List TokenKind} {G : List Token → β → Prop} {t : β}
    (h : Starts kinds G) (ht : G seg t)
    (hapart : ∀ kind ∈ kinds, ∀ other ∈ kinds', kind.same other = false) :
    Stops kinds' (seg ++ rest) := by
  obtain ⟨a, tail, rfl, kind, hkind, ha⟩ := h seg t ht
  exact stops_of_is ha (hapart kind hkind)

theorem Starts.ne_nil {kinds : List TokenKind} {G : List Token → β → Prop} {t : β}
    (h : Starts kinds G) (ht : G seg t) : seg ≠ [] := by
  obtain ⟨a, tail, rfl, _⟩ := h seg t ht
  exact List.cons_ne_nil _ _

theorem Starts.separated {kinds : List TokenKind} {G : Phrase} (h : Starts kinds G) :
    Starts kinds (Separated G) := by
  intro seg ts hts
  cases hts with
  | one phrase => exact h _ _ phrase
  | more first _ _ =>
    obtain ⟨a, tail, rfl, ha⟩ := h _ _ first
    exact ⟨a, _, rfl, ha⟩

/-- The parser accepts every such phrase of at most `n` tokens, if what comes behind allows
it. -/
def Complete (S : Setting) (env : ParserEnv) (x : Parser α) (G : List Token → β → Prop) (n : Nat)
    (F : List Token → Prop) : Prop :=
  ∀ seg t, G seg t → seg.length ≤ n → ∀ s rest, S.Fits s → s.cursor.rest = seg ++ rest →
    F rest → Accepts S x env s rest AnyResult

theorem Complete.mono {x : Parser α} {G : List Token → β → Prop} {n m : Nat}
    {F : List Token → Prop} (h : Complete S env x G n F) (hm : m ≤ n) : Complete S env x G m F :=
  fun seg t ht hlen => h seg t ht (Nat.le_trans hlen hm)

end ApiSyntax
