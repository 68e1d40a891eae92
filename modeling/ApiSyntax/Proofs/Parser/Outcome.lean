/-
  ApiSyntax/Proofs/Parser/Outcome.lean --- what a run of a parser may come to.

  A run that succeeds has passed over some tokens and has made some trees; a run that
  fails has at most left trees behind that nothing points at.  `Outcome` says this of the
  result of a run, seen from a state `b` that may lie further back than the state where
  the run began: what was passed and made since `b` is collected step by step.  There is
  one rule for each combinator, and each rule is for success and failure at once.

  A `Setting` says which operator tables and which tokens a run may meet.  It is what
  separates a grammar whose operators are fixed from one where annotations make them
  grow.
-/
import ApiSyntax.Parser.Rule
import ApiSyntax.Proofs.Arena.Copy
import ApiSyntax.Proofs.Operators.Settling

set_option autoImplicit false

namespace ApiSyntax

open Arena

/-! ## Settings -/

/-- The operator tables and the tokens that a run may meet. -/
structure Setting where
  Tables : OperatorTable → Prop
  Tokens : Token → Prop

namespace Setting

/-- Anything may be met. -/
def any : Setting := ⟨fun _ => True, fun _ => True⟩

/-- The operators stay as they are. -/
def fixed (table : OperatorTable) : Setting := ⟨(· = table), fun _ => True⟩

/-- The operators stay as they are, and no annotation is met. -/
def plain (table : OperatorTable) : Setting := ⟨(· = table), fun t => t.is .annotationSign = false⟩

/-- The state is one that a run may meet. -/
structure Fits (S : Setting) (s : ParserState) : Prop where
  tables : S.Tables s.work.operators
  tokens : ∀ t ∈ s.cursor.rest, S.Tokens t

end Setting

/-! ## Steps -/

/-- The place moves over the tokens `seg`. -/
structure Cursor.Passes (c d : Cursor) (seg : List Token) : Prop where
  ahead : c.rest = seg ++ d.rest
  behind : d.consumed = seg.reverse ++ c.consumed

theorem Cursor.Passes.trans {c d e : Cursor} {seg seg' : List Token} (h : c.Passes d seg)
    (h' : d.Passes e seg') : c.Passes e (seg ++ seg') where
  ahead := by rw [h.ahead, h'.ahead, List.append_assoc]
  behind := by rw [h'.behind, h.behind, List.reverse_append, List.append_assoc]

/-- A run that succeeds: the tokens `seg` are passed, and among the trees that the new nodes form
are `ts`. -/
structure Step (S : Setting) (s s' : ParserState) (seg : List Token) (ts : List Tree) : Prop where
  passes : s.cursor.Passes s'.cursor seg
  fits : S.Fits s'
  arena : Grows s.work.arena s'.work.arena ts

/-- A run that fails: the old nodes are as they were. -/
structure Lost (S : Setting) (s s' : ParserState) : Prop where
  tables : S.Tables s'.work.operators
  arena : Grows s.work.arena s'.work.arena []

variable {S : Setting} {α β γ : Type} {env : ParserEnv} {b s s' s₁ : ParserState}
  {seg seg' : List Token} {ts ts' us : List Tree}

namespace Step

theorem refl (hs : S.Fits s) : Step S s s [] [] := ⟨⟨rfl, rfl⟩, hs, Grows.refl _⟩

theorem trans (h : Step S b s seg ts) (h' : Step S s s' seg' ts') :
    Step S b s' (seg ++ seg') (ts ++ ts') :=
  ⟨h.passes.trans h'.passes, h'.fits, h.arena.append h'.arena⟩

/-- Trees may be named in another order, and need not all be named. -/
theorem naming (h : Step S b s seg ts) (hus : us.Subperm ts) : Step S b s seg us :=
  ⟨h.passes, h.fits, h.arena.subperm hus⟩

theorem perm (h : Step S b s seg ts) (hus : ts.Perm us) : Step S b s seg us :=
  h.naming hus.symm.subperm

theorem lose (h : Step S b s seg ts) : Lost S b s := ⟨h.fits.tables, h.arena.forget⟩

theorem then_lost (h : Step S b s seg ts) (h' : Lost S s s') : Lost S b s' :=
  ⟨h'.tables, (h.arena.append h'.arena).forget⟩

/-- The first token that was passed is the one where the run began. -/
theorem startToken {t : Token} (h : Step S b s (t :: seg) ts) : b.cursor.startToken = t := by
  have hahead := h.passes.ahead
  unfold Cursor.startToken
  split
  · next heq =>
    rw [heq] at hahead
    exact (List.cons.inj hahead).1
  · next heq =>
    rw [heq] at hahead
    cases hahead

end Step

/-- Going back to the place where a failed run began. -/
theorem Lost.back {cursor : Cursor} {phase : Phase} {events : Array Event} (h : Lost S s s')
    (hs : S.Fits s) (hcursor : cursor = s.cursor) :
    Step S s ⟨cursor, phase, { s'.work with events := events }⟩ [] [] := by
  subst hcursor
  exact ⟨⟨rfl, rfl⟩, ⟨h.tables, hs.tokens⟩, h.arena⟩

/-! ## Outcomes -/

/-- What a run comes to, seen from the state `b`. -/
inductive Outcome (S : Setting) (b : ParserState) {α : Type}
    (Q : α → List Token → List Tree → Prop) : Except Stop α × ParserState → Prop
  | done {a : α} {s : ParserState} {seg : List Token} {ts : List Tree}
      (step : Step S b s seg ts) (post : Q a seg ts) : Outcome S b Q (.ok a, s)
  | lost {e : Stop} {s : ParserState} (lost : Lost S b s) : Outcome S b Q (.error e, s)

/-- The parser, run from any state of the setting, comes to `Q`. -/
def Reads (S : Setting) (env : ParserEnv) (x : Parser α)
    (Q : α → List Token → List Tree → Prop) : Prop :=
  ∀ s, S.Fits s → Outcome S s Q (x env s)

/-- One tree is made, and it is such a phrase. -/
def One (G : List Token → Tree → Prop) (id : NodeId) (seg : List Token) (ts : List Tree) : Prop :=
  ∃ t, id = t.root ∧ ts = [t] ∧ G seg t

/-- Several trees are made, and they are such a sequence of phrases. -/
def Many (G : List Token → List Tree → Prop) (ids : List NodeId) (seg : List Token)
    (ts : List Tree) : Prop :=
  ids = ts.map Tree.root ∧ G seg ts

/-- A token is passed. -/
def Passed (p : Token → Prop) (t : Token) (seg : List Token) (ts : List Tree) : Prop :=
  p t ∧ seg = [t] ∧ ts = []

namespace Outcome

variable {Q : α → List Token → List Tree → Prop} {R : β → List Token → List Tree → Prop}
  {x : Parser α} {f : α → Parser β} {r : Except Stop α × ParserState}

/-- The outcome of a run that is known to succeed. -/
theorem of_ok {a : α} (h : Outcome S b Q (.ok a, s)) :
    ∃ seg ts, Step S b s seg ts ∧ Q a seg ts := by
  cases h with
  | done step post => exact ⟨_, _, step, post⟩

theorem exists_ok (h : r.1.toOption.isSome) : ∃ a s, r = (.ok a, s) := by
  rcases r with ⟨_ | a, s⟩
  · cases h
  · exact ⟨a, s, rfl⟩

/-- The run succeeds, and what it gives and leaves behind passes a test. -/
def passes (r : Except Stop α × ParserState) (test : α → ParserState → Bool) : Bool :=
  r.1.toOption.any (test · r.2)

theorem exists_of_passes {test : α → ParserState → Bool} (h : passes r test) :
    ∃ a s, r = (.ok a, s) ∧ test a s := by
  obtain ⟨_ | a, s⟩ := r
  · cases h
  · exact ⟨a, s, rfl, h⟩

theorem mono {Q' : α → List Token → List Tree → Prop} (h : Outcome S b Q r)
    (hQ : ∀ a seg ts, Q a seg ts → Q' a seg ts) : Outcome S b Q' r := by
  cases h with
  | done step post => exact .done step (hQ _ _ _ post)
  | lost lost => exact .lost lost

/-- A run that leaves the operators as they are is a run of any setting. -/
theorem widen (hs : S.Fits s) (h : Outcome (.fixed s.work.operators) s Q r) :
    Outcome S s Q r := by
  cases h with
  | @done a s' seg ts step post =>
    have htable : s'.work.operators = s.work.operators := step.fits.tables
    refine .done ⟨step.passes, ⟨htable ▸ hs.tables, fun t ht => hs.tokens t ?_⟩, step.arena⟩ post
    rw [step.passes.ahead]
    exact List.mem_append_right seg ht
  | @lost e s' lost =>
    have htable : s'.work.operators = s.work.operators := lost.tables
    exact .lost ⟨htable ▸ hs.tables, lost.arena⟩

/-- A run, then what follows from its result. -/
theorem bind (hx : Outcome S b Q (x env s))
    (hf : ∀ a s₁ seg ts, Q a seg ts → Step S b s₁ seg ts → Outcome S b R (f a env s₁)) :
    Outcome S b R ((x >>= f) env s) := by
  rw [Parser.bind_run, Action.bind_run]
  generalize x env s = r at hx
  cases hx with
  | done step post => exact hf _ _ _ _ post step
  | lost lost => exact .lost lost

/-- A run that is seen from where it began, seen from further back. -/
theorem from_step (h : Step S b s seg ts) (hx : Outcome S s Q r) :
    Outcome S b (fun a seg' ts' => ∃ seg₁ ts₁, seg' = seg ++ seg₁ ∧ ts' = ts ++ ts₁ ∧
      Q a seg₁ ts₁) r := by
  cases hx with
  | done step post => exact .done (h.trans step) ⟨_, _, rfl, rfl, post⟩
  | lost lost => exact .lost (h.then_lost lost)

theorem pure {a : α} (h : Step S b s seg ts) (hQ : Q a seg ts) :
    Outcome S b Q ((Pure.pure a : Parser α) env s) := .done h hQ

theorem fail {d : Diagnostic} (h : Step S b s seg ts) :
    Outcome S b Q (Parser.fail d env s) := .lost h.lose

theorem exhausted (h : Step S b s seg ts) : Outcome S b Q (Parser.exhausted env s) := .lost h.lose

/-- A question that is decided on the way. -/
theorem cond {c : Prop} [Decidable c] {y : Parser α} (hx : c → Outcome S b Q (x env s))
    (hy : ¬c → Outcome S b Q (y env s)) :
    Outcome S b Q ((if c then x else y : Parser α) env s) := by
  by_cases hc : c
  · rw [if_pos hc]
    exact hx hc
  · rw [if_neg hc]
    exact hy hc

end Outcome

/-! ## Going on from a step -/

namespace Step

variable {Q : α → List Token → List Tree → Prop} {R : β → List Token → List Tree → Prop}
  {x : Parser α} {f : α → Parser β}

/-- A parser is run behind a step. -/
theorem next (h : Step S b s seg ts) (hx : Reads S env x Q)
    (hf : ∀ a s₁ seg₁ ts₁, Q a seg₁ ts₁ → Step S b s₁ (seg ++ seg₁) (ts ++ ts₁) →
      Outcome S b R (f a env s₁)) : Outcome S b R ((x >>= f) env s) := by
  refine (Outcome.from_step h (hx s h.fits)).bind fun a s₁ seg' ts' post step => ?_
  obtain ⟨seg₁, ts₁, rfl, rfl, post⟩ := post
  exact hf a s₁ seg₁ ts₁ post step

/-- A parser is run behind a step, and its result is the last one. -/
theorem last (h : Step S b s seg ts) (hx : Reads S env x Q)
    {Q' : α → List Token → List Tree → Prop}
    (hQ : ∀ a seg₁ ts₁, Q a seg₁ ts₁ → Q' a (seg ++ seg₁) (ts ++ ts₁)) :
    Outcome S b Q' (x env s) := by
  refine (Outcome.from_step h (hx s h.fits)).mono fun a seg' ts' post => ?_
  obtain ⟨seg₁, ts₁, rfl, rfl, post⟩ := post
  exact hQ a seg₁ ts₁ post

/-- A result or a failure that does not touch the state, then what follows from it. -/
theorem next_result {x : Except Stop α} {y : Parser α} (h : Step S b s seg ts)
    (hy : y env s = (x, s)) (hf : ∀ a, x = .ok a → Outcome S b R (f a env s)) :
    Outcome S b R ((y >>= f) env s) := by
  rw [Parser.bind_run, Action.bind_run, hy]
  cases x with
  | ok a => exact hf a rfl
  | error e => exact .lost h.lose

end Step

theorem Reads.mono {x : Parser α} {Q Q' : α → List Token → List Tree → Prop}
    (h : Reads S env x Q) (hQ : ∀ a seg ts, Q a seg ts → Q' a seg ts) : Reads S env x Q' :=
  fun s hs => (h s hs).mono hQ

/-- What is read as one kind of phrase may be seen as another kind. -/
theorem Reads.imp {x : Parser NodeId} {G G' : List Token → Tree → Prop}
    (h : Reads S env x (One G)) (hG : ∀ seg t, G seg t → G' seg t) : Reads S env x (One G') := by
  refine h.mono fun id seg ts hid => ?_
  obtain ⟨t, rfl, rfl, ht⟩ := hid
  exact ⟨t, rfl, rfl, hG seg t ht⟩

end ApiSyntax
