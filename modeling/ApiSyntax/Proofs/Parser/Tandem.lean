/-
  ApiSyntax/Proofs/Parser/Tandem.lean --- two runs side by side.

  A coupling relates the places and the workspaces of two runs.  `Tandem` says that two parsers,
  run from states that are coupled, come to the same result and leave states that are coupled
  again.  There is one rule for each combinator, so the grammar is gone through once, and what
  follows for two runs is a matter of the few laws of a coupling.

  Places are related under a mark, which says how deep in brackets they are and whether a token
  has been passed.  A coupling may know of a place between brackets what it does not know
  elsewhere: that what follows it has an end.

  A lenient coupling lets the first run give up on its bound; then nothing is said of the second,
  whose bounds are no smaller.
-/
import ApiSyntax.Grammar.Naming
import ApiSyntax.Proofs.Arena.Comparison
import ApiSyntax.Proofs.Operators.Extensions
import ApiSyntax.Proofs.Parser.Brackets
import ApiSyntax.Proofs.Parser.Complete

set_option autoImplicit false

namespace ApiSyntax

open ApiSyntax.Action

/-! ## Couplings -/

/-- The next tokens are the same: the first, and behind one that closes no bracket the second. -/
structure SameAhead (ts us : List Token) : Prop where
  head : ts.head? = us.head?
  second : ∀ t ts' us', ts = t :: ts' → us = t :: us' → t.bracket ≠ .closing →
    ts'.head? = us'.head?

theorem SameAhead.refl (ts : List Token) : SameAhead ts ts := by
  refine ⟨rfl, fun t ts' us' h h' _ => ?_⟩
  rw [h] at h'
  cases h'
  rfl

section Triggers

open ApiSyntax.Parser

variable {ts us : List Token} (h : SameAhead ts us)
include h

/-- Both stand at the end, or in front of the same token. -/
theorem SameAhead.cases : (ts = [] ∧ us = []) ∨ ∃ t ts' us', ts = t :: ts' ∧ us = t :: us' := by
  have hhead := h.head
  cases ts with
  | nil => exact .inl ⟨rfl, List.head?_eq_none_iff.mp hhead.symm⟩
  | cons t ts' =>
    obtain ⟨us', hus⟩ := List.head?_eq_some_iff.mp hhead.symm
    exact .inr ⟨t, ts', us', rfl, hus⟩

theorem startsWith_sameAhead (kind : TokenKind) : startsWith ts kind = startsWith us kind := by
  obtain ⟨rfl, rfl⟩ | ⟨t, ts', us', rfl, rfl⟩ := h.cases <;> rfl

theorem startsWithKeyword_sameAhead (word : String) :
    startsWithKeyword ts word = startsWithKeyword us word := by
  obtain ⟨rfl, rfl⟩ | ⟨t, ts', us', rfl, rfl⟩ := h.cases <;> rfl

theorem startsWithAny_sameAhead (kinds : List TokenKind) :
    Production.startsWithAny ts kinds = Production.startsWithAny us kinds := by
  obtain ⟨rfl, rfl⟩ | ⟨t, ts', us', rfl, rfl⟩ := h.cases <;> rfl

/-- The second token is asked for behind a token that closes no bracket. -/
theorem startsWithPair_sameAhead {first : TokenKind} (hfirst : first.bracket ≠ .closing)
    (second : List TokenKind) :
    startsWithPair ts first second = startsWithPair us first second := by
  obtain ⟨rfl, rfl⟩ | ⟨t, ts', us', rfl, rfl⟩ := h.cases
  · rfl
  · cases ht : t.is first with
    | false => simp only [startsWithPair, ht, Bool.false_eq_true, if_false]
    | true =>
      have hnext := h.second t ts' us' rfl rfl (Token.bracket_of_is ht ▸ hfirst)
      cases ts' with
      | nil =>
        obtain rfl : us' = [] := List.head?_eq_none_iff.mp hnext.symm
        rfl
      | cons u ts' =>
        obtain ⟨us', rfl⟩ := List.head?_eq_some_iff.mp hnext.symm
        simp only [startsWithPair, ht, if_true]

/-- Whether a production applies is seen from the next tokens. -/
theorem Production.trigger_sameAhead (p : Production) : p.trigger ts = p.trigger us := by
  cases p with
  | identifier | intLiteral | realLiteral | listLiteral | parenthesized | unary | block
  | annotationCall => exact startsWith_sameAhead h _
  | type | expression => exact startsWithAny_sameAhead h _
  | pair | constructorCall | staticCall | instanceCall | assignment | signature | method =>
    exact startsWithPair_sameAhead h (by decide) _
  | returned | deferred | typeDef | within | withApis | api =>
    exact startsWithKeyword_sameAhead h _
  | program =>
    simp only [trigger]
    rw [startsWith_sameAhead h, startsWithKeyword_sameAhead h]

/-- The same productions apply. -/
theorem applies_sameAhead : applies ts = applies us := by
  funext p
  rw [applies, applies, p.trigger_sameAhead h]

omit h in
theorem names_ruleOf (read : Production → Parser NodeId) (ps : List Production) :
    (ps.map (Production.ruleOf read)).map (·.name) = ps.map Production.name := List.map_map

omit h in
/-- The rules that apply are those of the productions that do. -/
theorem filter_ruleOf (read : Production → Parser NodeId) (ps : List Production) :
    (ps.map (Production.ruleOf read)).filter (·.accepts ts) =
      (ps.filter (applies ts)).map (Production.ruleOf read) := List.filter_map

/-- The failure when no rule applies is the same. -/
theorem noRule_sameAhead (read read' : Production → Parser NodeId) (ps : List Production)
    (t : Token) (expected : String) :
    noRule (ps.map (Production.ruleOf read)) ts t expected =
      noRule (ps.map (Production.ruleOf read')) us t expected := by
  have hstarved : ∀ p : Production,
      (p.ruleOf read).isStarved ts = (p.ruleOf read').isStarved us := by
    intro p
    have htrigger : (p.ruleOf read).trigger ts = (p.ruleOf read').trigger us :=
      p.trigger_sameAhead h
    rw [Rule.isStarved, Rule.isStarved, htrigger]
  have hany : (ps.map (Production.ruleOf read)).any (·.isStarved ts) =
      (ps.map (Production.ruleOf read')).any (·.isStarved us) := by
    rw [List.any_map, List.any_map]
    exact congrArg ps.any (funext hstarved)
  rw [noRule, noRule, hany]

end Triggers

/-- The event tells of a token that was passed over. -/
def Event.isDiscarded : Event → Bool
  | .discarded .. => true
  | _ => false

/-- Two runs: what each is given, and how their places and workspaces are related. -/
structure Coupling where
  first : ParserEnv
  second : ParserEnv
  Places : Mark → Cursor → Cursor → Prop
  Work : Workspace → Workspace → Prop
  /-- The first run may give up on its bound. -/
  lenient : Prop

namespace Coupling

/-- The two runs are given the same bound, or a lenient one is given no larger one. -/
def Bounds (C : Coupling) (n n' : Nat) : Prop := n = n' ∨ (C.lenient ∧ n ≤ n')

theorem Bounds.zero {C : Coupling} {n' : Nat} (h : C.Bounds 0 n') : n' = 0 ∨ C.lenient :=
  h.imp Eq.symm And.left

theorem Bounds.succ {C : Coupling} {n n' : Nat} (h : C.Bounds (n + 1) n') :
    ∃ k, n' = k + 1 ∧ C.Bounds n k := by
  obtain rfl | ⟨hlenient, hle⟩ := h
  · exact ⟨n, rfl, .inl rfl⟩
  · exact ⟨n' - 1, by omega, .inr ⟨hlenient, by omega⟩⟩

/-- The laws of a coupling. -/
class Lawful (C : Coupling) : Prop where
  extensions : C.second.extensions = C.first.extensions
  typeName : Grammar.typeName C.second = Grammar.typeName C.first
  /-- What is known of places may be forgotten. -/
  forget {m m' : Mark} {c d : Cursor} (h : C.Places m' c d) (hle : m ≤ m') : C.Places m c d
  ahead {m : Mark} {c d : Cursor} (h : C.Places m c d) (hm : m.Peeks) : SameAhead c.rest d.rest
  startToken {m : Mark} {c d : Cursor} (h : C.Places m c d) (hm : m.Peeks) :
    c.startToken = d.startToken
  /-- Both pass a token. -/
  pass {m : Mark} {t : Token} {p q ts us : List Token} (h : C.Places m ⟨p, t :: ts⟩ ⟨q, t :: us⟩)
    (hm : m.Peeks) : C.Places (m.turn t.bracket) ⟨t :: p, ts⟩ ⟨t :: q, us⟩
  /-- The first run has no more tokens ahead, and as many unless it may give up. -/
  length {m : Mark} {c d : Cursor} (h : C.Places m c d) : C.Bounds c.rest.length d.rest.length
  arena {w v : Workspace} (h : C.Work w v) : w.arena = v.arena
  operators {w v : Workspace} (h : C.Work w v) : w.operators = v.operators
  onArena {w v : Workspace} (h : C.Work w v) (a : Arena) :
    C.Work { w with arena := a } { v with arena := a }
  /-- Both record an event that tells neither of a token passed over nor of a call. -/
  note {w v : Workspace} {e : Event} (h : C.Work w v) (htold : e.isDiscarded = false)
    (hcall : e.call? = none) :
    C.Work { w with events := w.events.push e } { v with events := v.events.push e }
  /-- Both record that an alternative was given up. -/
  rewound {w v : Workspace} {m : Mark} {c d : Cursor} (h : C.Work w v) (hplace : C.Places m c d)
    (why : Diagnostic) :
    C.Work { w with events := w.events.push (.rewound c.index why) }
      { v with events := v.events.push (.rewound d.index why) }
  invoke {name : String} {e : Extension} (h : C.first.extensions.get? name = some e) (site : Site)
    (params : List NodeId) : Mirrors C.Work Eq Eq (e.invoke site params) (e.invoke site params)

variable {C : Coupling} {ε α β γ : Type} {φ : Phase} {m m' : Mark}

/-! ## Workspaces -/

theorem onArena_mirrors [C.Lawful] (x : Action Arena ε α) :
    Mirrors C.Work Eq Eq (Workspace.onArena x) (Workspace.onArena x) := by
  intro w v h
  unfold Workspace.onArena
  dsimp only
  rw [Lawful.arena h]
  obtain ⟨_ | a, a'⟩ := x v.arena
  · exact ⟨.error rfl, Lawful.onArena h a'⟩
  · exact ⟨.ok rfl, Lawful.onArena h a'⟩

/-- A node is settled alike: what happens to it depends on the nodes and the operators. -/
theorem settle_mirrors [C.Lawful] (id : NodeId) :
    Mirrors C.Work Eq Eq (Workspace.settle id) (Workspace.settle id) := by
  have hask : ∀ id, Mirrors C.Work Eq Eq
      (Workspace.ask fun w => (Turn.of w.arena w.operators id).mapError Stop.failed)
      (Workspace.ask fun w => (Turn.of w.arena w.operators id).mapError Stop.failed) := by
    intro id w v h
    unfold Workspace.ask
    dsimp only
    rw [Lawful.arena h, Lawful.operators h]
    cases Turn.of v.arena v.operators id with
    | error d => exact ⟨.error rfl, h⟩
    | ok turn => exact ⟨.ok rfl, h⟩
  have hnote : ∀ a b side, Mirrors C.Work (Eq : Stop → Stop → Prop) Eq
      (Workspace.note (.rotating a b side)) (Workspace.note (.rotating a b side)) :=
    fun a b side w v h => ⟨.ok rfl, Lawful.note h rfl rfl⟩
  have hset : ∀ id b, Mirrors C.Work Eq Eq (Workspace.setBinary id b) (Workspace.setBinary id b) :=
    fun id b => onArena_mirrors _
  have hsettle : ∀ fuel id, Mirrors C.Work Eq Eq (Workspace.settleN fuel id)
      (Workspace.settleN fuel id) := by
    intro fuel
    induction fuel with
    | zero => exact fun _ => .fail rfl
    | succ fuel ih =>
      intro id
      unfold Workspace.settleN
      refine (hask id).next fun turn => ?_
      cases turn with
      | stay => exact .pure rfl
      | liftLeft node lifted =>
        refine (hnote _ _ _).next fun _ => (hset _ _).next fun _ => (ih id).next fun settled => ?_
        exact (hset _ _).next fun _ => .pure rfl
      | liftRight node lifted =>
        refine (hnote _ _ _).next fun _ => (hset _ _).next fun _ => (ih id).next fun settled => ?_
        exact (hset _ _).next fun _ => .pure rfl
  intro w v h
  rw [Workspace.settle, Workspace.settle, Lawful.arena h]
  exact hsettle _ id w v h

/-! ## Runs -/

/-- The two states are coupled, and both are in the phase `φ`. -/
structure Meets (C : Coupling) (φ : Phase) (m : Mark) (s t : ParserState) : Prop where
  place : C.Places m s.cursor t.cursor
  phase : s.phase = φ
  phase' : t.phase = φ
  work : C.Work s.work t.work

/-- The two runs end alike; of their places `h` tells, from the result. -/
inductive Ends (C : Coupling) (φ : Phase) (h : α → Mark) :
    Except Stop α × ParserState → Except Stop α × ParserState → Prop
  | done {a : α} {s t : ParserState} (meets : C.Meets φ (h a) s t) :
      Ends C φ h (.ok a, s) (.ok a, t)
  | stopped {e : Stop} {s t : ParserState} (meets : C.Meets φ .lost s t) :
      Ends C φ h (.error e, s) (.error e, t)
  | spent {s : ParserState} {r : Except Stop α × ParserState} (hlenient : C.lenient) :
      Ends C φ h (.error .exhausted, s) r

/-- From states that are coupled at the mark `m` both parsers end alike. -/
def Tandem (C : Coupling) (φ : Phase) (m : Mark) (p q : Parser α) (h : α → Mark) : Prop :=
  ∀ s t, C.Meets φ m s t → C.Ends φ h (p C.first s) (q C.second t)

/-- The same where the token `t` stands ahead. -/
def Facing (C : Coupling) (t : Token) (φ : Phase) (m : Mark) (p q : Parser α) (h : α → Mark) :
    Prop :=
  ∀ s u, C.Meets φ m s u → s.cursor.rest.head? = some t →
    C.Ends φ h (p C.first s) (q C.second u)

/-- Between brackets both parsers end alike, pass a token, and end as deep as they began. -/
def Between (C : Coupling) (φ : Phase) (p q : Parser α) : Prop :=
  ∀ depth moved, C.Tandem φ (.inside depth moved) p q fun _ => .inside depth true

namespace Meets

variable [C.Lawful] {s t : ParserState}

theorem forget (h : C.Meets φ m' s t) (hle : m ≤ m') : C.Meets φ m s t :=
  ⟨Lawful.forget h.place hle, h.phase, h.phase', h.work⟩

theorem lose (h : C.Meets φ m s t) : C.Meets φ .lost s t := h.forget (Mark.lost_le m)

/-- Both runs face the same token, or none. -/
theorem faces (h : C.Meets φ m s t) (hm : m.Peeks) :
    (s.cursor.rest = [] ∧ t.cursor.rest = []) ∨
      ∃ u ts us, s.cursor.rest = u :: ts ∧ t.cursor.rest = u :: us :=
  (Lawful.ahead h.place hm).cases

/-- Both runs pass the token that they face. -/
theorem pass {u : Token} {ts us : List Token} (h : C.Meets φ m s t) (hm : m.Peeks)
    (hs : s.cursor.rest = u :: ts) (ht : t.cursor.rest = u :: us) :
    C.Meets φ (m.turn u.bracket) { s with cursor := ⟨u :: s.cursor.consumed, ts⟩ }
      { t with cursor := ⟨u :: t.cursor.consumed, us⟩ } := by
  have hplace : C.Places m ⟨s.cursor.consumed, u :: ts⟩ ⟨t.cursor.consumed, u :: us⟩ := by
    rw [← hs, ← ht]
    exact h.place
  exact ⟨Lawful.pass hplace hm, h.phase, h.phase', h.work⟩

end Meets

namespace Tandem

variable {p q p' q' : Parser α} {h k : α → Mark} {l : β → Mark}

theorem bind {f g : α → Parser β} (hp : C.Tandem φ m p q h)
    (hf : ∀ a, C.Tandem φ (h a) (f a) (g a) l) : C.Tandem φ m (p >>= f) (q >>= g) l := by
  intro s t hst
  have hends := hp s t hst
  rw [Parser.bind_run, Parser.bind_run, Action.bind_run, Action.bind_run]
  generalize p C.first s = r, q C.second t = r' at hends
  cases hends with
  | done meets => exact hf _ _ _ meets
  | stopped meets => exact .stopped meets
  | spent hlenient => exact .spent hlenient

theorem cond {c : Prop} [Decidable c] (hp : c → C.Tandem φ m p q h)
    (hp' : ¬c → C.Tandem φ m p' q' h) :
    C.Tandem φ m (if c then p else p') (if c then q else q') h := by
  by_cases hc : c
  · rw [if_pos hc, if_pos hc]
    exact hp hc
  · rw [if_neg hc, if_neg hc]
    exact hp' hc

/-- What each run is given. -/
theorem environment {f g : ParserEnv → Parser β} (hf : C.Tandem φ m (f C.first) (g C.second) l) :
    C.Tandem φ m (Parser.env >>= f) (Parser.env >>= g) l :=
  fun s t hst => hf s t hst

variable [C.Lawful]

/-- Less may be said of the places afterwards. -/
theorem mono (hp : C.Tandem φ m p q h) (hle : ∀ a, k a ≤ h a) : C.Tandem φ m p q k := by
  intro s t hst
  have hends := hp s t hst
  generalize p C.first s = r, q C.second t = r' at hends
  cases hends with
  | done meets => exact .done (meets.forget (hle _))
  | stopped meets => exact .stopped meets
  | spent hlenient => exact .spent hlenient

/-! ## Single steps -/

omit [C.Lawful] in
theorem pure {a : α} (hm : h a = m) : C.Tandem φ m (Pure.pure a) (Pure.pure a) h := by
  subst hm
  exact fun _ _ hst => .done hst

/-- A result, while less is said of the places. -/
theorem give {a : α} (hm : h a ≤ m) : C.Tandem φ m (Pure.pure a) (Pure.pure a) h :=
  fun _ _ hst => .done (hst.forget hm)

theorem fail {d : Diagnostic} : C.Tandem φ m (Parser.fail d) (Parser.fail d) h :=
  fun _ _ hst => .stopped hst.lose

theorem exhausted : C.Tandem φ m (Parser.exhausted : Parser α) Parser.exhausted h :=
  fun _ _ hst => .stopped hst.lose

omit [C.Lawful] in
/-- Where the first run may give up nothing is said of the second. -/
theorem spent (hlenient : C.lenient) : C.Tandem φ m Parser.exhausted q h :=
  fun _ _ _ => .spent hlenient

/-- A question about what is built, which both answer alike. -/
theorem atArena {f : Arena → Except Diagnostic α} :
    C.Tandem φ m (Parser.atArena f) (Parser.atArena f) fun _ => m := by
  intro s t hst
  unfold Parser.atArena
  rw [Lawful.arena hst.work]
  cases f t.work.arena with
  | ok a => exact .done hst
  | error d => exact .stopped hst.lose

/-- The answer to a question about what is built is used as far as `P` tells of it. -/
theorem answering {f : Arena → Except Diagnostic α} {g g' : α → Parser β} (P : α → Prop)
    (hP : ∀ a r, f a = .ok r → P r) (hf : ∀ r, P r → C.Tandem φ m (g r) (g' r) l) :
    C.Tandem φ m (Parser.atArena f >>= g) (Parser.atArena f >>= g') l := by
  intro s t hst
  rw [Parser.bind_run, Parser.bind_run, Action.bind_run, Action.bind_run, Parser.atArena,
    Parser.atArena, Lawful.arena hst.work]
  cases hfound : f t.work.arena with
  | ok r => exact hf r (hP _ r hfound) s t hst
  | error d => exact .stopped hst.lose

theorem ofExcept {x : Except Diagnostic α} :
    C.Tandem φ m (Parser.ofExcept x) (Parser.ofExcept x) fun _ => m := by
  intro s t hst
  cases x with
  | ok a => exact .done hst
  | error d => exact .stopped hst.lose

/-- Both runs know the same operators. -/
theorem state {f g : ParserState → Parser β}
    (hf : ∀ s t : ParserState, s.work.operators = t.work.operators →
      C.Tandem φ m (f s) (g t) l) :
    C.Tandem φ m (Parser.state >>= f) (Parser.state >>= g) l :=
  fun s t hst => hf s t (Lawful.operators hst.work) s t hst

theorem building {x y : Action Workspace Stop α} (hxy : Mirrors C.Work Eq Eq x y) :
    C.Tandem φ m (Parser.building x) (Parser.building y) fun _ => m := by
  intro s t hst
  obtain ⟨hreply, hwork⟩ := hxy _ _ hst.work
  rw [Parser.building_run, Parser.building_run]
  generalize x s.work = r, y t.work = r' at hreply hwork
  obtain ⟨r, w⟩ := r
  obtain ⟨r', v⟩ := r'
  cases hreply with
  | ok hab =>
    cases hab
    exact .done ⟨hst.place, hst.phase, hst.phase', hwork⟩
  | error hee =>
    cases hee
    exact .stopped ⟨hst.lose.place, hst.phase, hst.phase', hwork⟩

theorem note {e : Event} (htold : e.isDiscarded = false) (hcall : e.call? = none) :
    C.Tandem φ m (Parser.note e) (Parser.note e) fun _ => m :=
  building fun _ _ h => ⟨.ok rfl, Lawful.note h htold hcall⟩

theorem onArena {x : Action Arena Stop α} :
    C.Tandem φ m (Parser.building (Workspace.onArena x)) (Parser.building (Workspace.onArena x))
      fun _ => m :=
  building (onArena_mirrors x)

theorem alloc {token : Token} {expr : Expr} :
    C.Tandem φ m (Parser.alloc token expr) (Parser.alloc token expr) fun _ => m := onArena

theorem duplicate {id : NodeId} :
    C.Tandem φ m (Parser.duplicate id) (Parser.duplicate id) fun _ => m := onArena

/-! ## Tokens -/

theorem startToken (hm : m.Peeks) :
    C.Tandem φ m Parser.startToken Parser.startToken fun _ => m := by
  intro s t hst
  have hsame : (Parser.startToken C.second t : Except Stop Token × ParserState) =
      (.ok s.cursor.startToken, t) := by
    rw [Lawful.startToken hst.place hm]
    rfl
  rw [hsame]
  exact .done hst

/-- The tokens that remain are asked for.  They need not be the same, but the next ones are. -/
theorem remaining (hm : m.Peeks) {f g : List Token → Parser β}
    (hnil : C.Tandem φ m (f []) (g []) l)
    (hcons : ∀ t ts us, SameAhead (t :: ts) (t :: us) →
      C.Facing t φ m (f (t :: ts)) (g (t :: us)) l) :
    C.Tandem φ m (Parser.remaining >>= f) (Parser.remaining >>= g) l := by
  intro s t hst
  have hahead := Lawful.ahead hst.place hm
  rw [Parser.remaining_bind, Parser.remaining_bind]
  obtain ⟨hs, ht⟩ | ⟨u, ts, us, hs, ht⟩ := hst.faces hm
  · rw [hs, ht]
    exact hnil s t hst
  · rw [hs, ht] at hahead ⊢
    exact hcons u ts us hahead s t hst (by rw [hs]; rfl)

/-- The tokens that remain are asked for, and only the next ones count. -/
theorem looking (hm : m.Peeks) {f g : List Token → Parser β}
    (hf : ∀ ts us, SameAhead ts us → C.Tandem φ m (f ts) (g us) l) :
    C.Tandem φ m (Parser.remaining >>= f) (Parser.remaining >>= g) l :=
  fun s t hst => hf _ _ (Lawful.ahead hst.place hm) s t hst

/-- Whether the next token is of a kind. -/
theorem check (kind : TokenKind) (hm : m.Peeks) :
    C.Tandem φ m (Parser.check kind) (Parser.check kind) fun _ => m := by
  intro s t hst
  have hsame : t.cursor.check kind = s.cursor.check kind := by
    rw [Cursor.check, Cursor.check, (Lawful.ahead hst.place hm).head]
  have hrun : Parser.check kind C.second t = (.ok (s.cursor.check kind), t) := by
    rw [← hsame]
    rfl
  rw [hrun]
  exact .done hst

/-- Where the next token is of a kind one parser goes on, elsewhere another one. -/
theorem ifCheck (kind : TokenKind) (hm : m.Peeks) {x x' y y' : Parser β}
    (hyes : ∀ t, t.is kind → C.Facing t φ m x x' l) (hno : C.Tandem φ m y y' l) :
    C.Tandem φ m (do if ← Parser.check kind then x else y)
      (do if ← Parser.check kind then x' else y') l := by
  intro s t hst
  rw [Parser.check_bind, Parser.check_bind]
  obtain ⟨hs, ht⟩ | ⟨u, ts, us, hs, ht⟩ := hst.faces hm
  · simp only [Cursor.check, hs, ht, List.head?_nil, Option.any_none]
    exact hno s t hst
  · simp only [Cursor.check, hs, ht, List.head?_cons, Option.any_some]
    cases hu : u.is kind with
    | false => exact hno s t hst
    | true => exact hyes u hu s t hst (by rw [hs]; rfl)

/-- Where the next token is a keyword one parser goes on, elsewhere another one. -/
theorem ifKeyword (word : String) (hm : m.Peeks) {x x' y y' : Parser β}
    (hyes : ∀ t, t.is .keyword → C.Facing t φ m x x' l) (hno : C.Tandem φ m y y' l) :
    C.Tandem φ m (do if ← Parser.checkKeyword word then x else y)
      (do if ← Parser.checkKeyword word then x' else y') l := by
  intro s t hst
  rw [Parser.checkKeyword_bind, Parser.checkKeyword_bind]
  obtain ⟨hs, ht⟩ | ⟨u, ts, us, hs, ht⟩ := hst.faces hm
  · simp only [Cursor.checkKeyword, Cursor.checkValue, hs, ht, List.head?_nil, Option.any_none]
    exact hno s t hst
  · simp only [Cursor.checkKeyword, Cursor.checkValue, hs, ht, List.head?_cons, Option.any_some]
    cases hu : u.isValue .keyword word with
    | false => exact hno s t hst
    | true => exact hyes u (Bool.and_eq_true_iff.mp hu).1 s t hst (by rw [hs]; rfl)

/-- The next token is asked for. -/
theorem peek (hm : m.Peeks) {f g : Token → Parser β}
    (hf : ∀ t, C.Facing t φ m (f t) (g t) l) :
    C.Tandem φ m (Parser.peek >>= f) (Parser.peek >>= g) l := by
  intro s t hst
  rw [Parser.bind_run, Parser.bind_run, Action.bind_run, Action.bind_run]
  obtain ⟨hs, ht⟩ | ⟨u, ts, us, hs, ht⟩ := hst.faces hm
  · rw [Parser.peek_run_nil hs, Parser.peek_run_nil ht]
    exact .stopped hst.lose
  · rw [Parser.peek_run hs, Parser.peek_run ht]
    exact hf u s t hst (by rw [hs]; rfl)

end Tandem

namespace Facing

variable {t : Token} {p q p' q' : Parser α} {h : α → Mark} {l : β → Mark}

/-- What ends alike does so whatever stands ahead. -/
theorem always (hp : C.Tandem φ m p q h) : C.Facing t φ m p q h := fun s u hsu _ => hp s u hsu

theorem cond {c : Prop} [Decidable c] (hp : c → C.Facing t φ m p q h)
    (hp' : ¬c → C.Facing t φ m p' q' h) :
    C.Facing t φ m (if c then p else p') (if c then q else q') h := by
  by_cases hc : c
  · rw [if_pos hc, if_pos hc]
    exact hp hc
  · rw [if_neg hc, if_neg hc]
    exact hp' hc

/-- What each run is given. -/
theorem environment {f g : ParserEnv → Parser β}
    (hf : C.Facing t φ m (f C.first) (g C.second) l) :
    C.Facing t φ m (Parser.env >>= f) (Parser.env >>= g) l :=
  fun s u hsu hhead => hf s u hsu hhead

variable [C.Lawful]

theorem consume (hm : m.Peeks) :
    C.Facing t φ m Parser.consume Parser.consume fun _ => m.turn t.bracket := by
  intro s u hsu hhead
  obtain ⟨hs, -⟩ | ⟨t', ts, us, hs, hu⟩ := hsu.faces hm
  · rw [hs] at hhead
    cases hhead
  · rw [hs] at hhead
    cases hhead
    rw [Parser.consume_run hs, Parser.consume_run hu]
    exact .done (hsu.pass hm hs hu)

/-- The token is consumed, and the parser goes on. -/
theorem passing {b : Bracket} (ht : t.bracket = b) (hm : m.Peeks) {f g : Token → Parser β}
    (hf : ∀ u, C.Tandem φ (m.turn b) (f u) (g u) l) :
    C.Facing t φ m (Parser.consume >>= f) (Parser.consume >>= g) l := by
  subst ht
  intro s u hsu hhead
  have hends := consume hm s u hsu hhead
  rw [Parser.bind_run, Parser.bind_run, Action.bind_run, Action.bind_run]
  generalize Parser.consume C.first s = r, Parser.consume C.second u = r' at hends
  cases hends with
  | done meets => exact hf _ _ _ meets
  | stopped meets => exact .stopped meets
  | spent hlenient => exact .spent hlenient

end Facing

namespace Tandem

variable [C.Lawful] {p q : Parser α} {h : α → Mark} {l : β → Mark}

theorem expectOr {kind : TokenKind} {f : Token → Bool} {error : Token → Diagnostic}
    (hm : m.Peeks) : C.Tandem φ m (Parser.expectOr kind f error) (Parser.expectOr kind f error)
      fun _ => m.turn kind.bracket := by
  refine peek hm fun t => .cond (fun ht => ?_) fun _ => .always fail
  rw [← Token.bracket_of_is (Bool.and_eq_true_iff.mp ht).1]
  exact .consume hm

theorem expect (kind : TokenKind) (hm : m.Peeks) :
    C.Tandem φ m (Parser.expect kind) (Parser.expect kind) fun _ => m.turn kind.bracket :=
  expectOr hm

theorem expectKeyword (word : String) (hm : m.Peeks) :
    C.Tandem φ m (Parser.expectKeyword word) (Parser.expectKeyword word) fun _ => m.past :=
  expectOr hm

/-- One of some kinds, none of which is a bracket, is expected. -/
theorem expectAny {kinds : List TokenKind} (hkinds : ∀ kind ∈ kinds, kind.bracket = .none)
    (hm : m.Peeks) : C.Tandem φ m (Parser.expectAny kinds true) (Parser.expectAny kinds true)
      fun _ => m.past := by
  refine peek hm fun t => .cond (fun ht => .cond (fun _ => ?_) fun hnot => absurd rfl hnot)
    fun _ => .always fail
  obtain ⟨kind, hkind, ht⟩ := List.any_eq_true.mp ht
  have hnone : t.bracket = .none := (Token.bracket_of_is ht).trans (hkinds kind hkind)
  rw [Mark.past, ← hnone]
  exact .consume hm

omit [C.Lawful] in
/-- Each run remembers its place. -/
theorem marking {f g : Cursor → Parser β}
    (hf : ∀ c d, C.Places m c d → C.Tandem φ m (f c) (g d) l) :
    C.Tandem φ m (Parser.atCursor id >>= f) (Parser.atCursor id >>= g) l :=
  fun s t hst => hf _ _ hst.place s t hst

/-! ## Giving up and phases -/

theorem attempt (hp : C.Tandem φ m p q h) :
    C.Tandem φ m (Parser.attempt p) (Parser.attempt q) fun o => o.elim m h := by
  intro s t hst
  have hends := hp s t hst
  unfold Parser.attempt
  dsimp only
  generalize p C.first s = r, q C.second t = r' at hends
  cases hends with
  | done meets => exact .done meets
  | @stopped e _ _ meets =>
    cases e with
    | failed d =>
      exact .done ⟨hst.place, hst.phase, hst.phase', Lawful.rewound meets.work hst.place d⟩
    | exhausted => exact .stopped meets
  | spent hlenient => exact .spent hlenient

omit [C.Lawful] in
theorem inPhase {inner : Phase} (hp : C.Tandem inner m p q h) :
    C.Tandem φ m (Parser.inPhase inner p) (Parser.inPhase inner q) h := by
  intro s t hst
  have hends := hp { s with phase := inner } { t with phase := inner }
    ⟨hst.place, rfl, rfl, hst.work⟩
  unfold Parser.inPhase
  dsimp only
  generalize p C.first { s with phase := inner } = r,
    q C.second { t with phase := inner } = r' at hends
  cases hends with
  | done meets => exact .done ⟨meets.place, hst.phase, hst.phase', meets.work⟩
  | stopped meets => exact .stopped ⟨meets.place, hst.phase, hst.phase', meets.work⟩
  | spent hlenient => exact .spent hlenient

/-! ## Loops -/

/-- The mark behind a round of a loop. -/
def rounds (m : Mark) (done : γ → Mark) : Parser.Round β γ → Mark
  | .more _ => m
  | .done c => done c

/-- On bounds that are coupled, loops over rounds that end alike do so too. -/
theorem loopN {round round' : β → Parser (Parser.Round β γ)} {done : γ → Mark}
    (hround : ∀ b, C.Tandem φ m (round b) (round' b) (rounds m done)) {n n' : Nat}
    (hn : C.Bounds n n') (b : β) :
    C.Tandem φ m (Parser.loopN round n b) (Parser.loopN round' n' b) done := by
  induction n generalizing n' b with
  | zero =>
    obtain rfl | hlenient := hn.zero
    · exact exhausted
    · exact spent hlenient
  | succ n ih =>
    obtain ⟨n', rfl, hn'⟩ := hn.succ
    unfold Parser.loopN
    refine (hround b).bind fun r => ?_
    cases r with
    | more next => exact ih hn' next
    | done result => exact pure rfl

theorem loop {round round' : β → Parser (Parser.Round β γ)} {done : γ → Mark}
    (hround : ∀ b, C.Tandem φ m (round b) (round' b) (rounds m done)) (b : β) :
    C.Tandem φ m (Parser.loop round b) (Parser.loop round' b) done := by
  intro s t hst
  have hlength : C.Bounds s.cursor.rest.length t.cursor.rest.length := Lawful.length hst.place
  have hn : C.Bounds (s.cursor.rest.length + 1) (t.cursor.rest.length + 1) :=
    hlength.imp (congrArg (· + 1)) (And.imp_right Nat.succ_le_succ)
  exact loopN hround hn b s t hst

end Tandem

/-! ## Lists -/

theorem listRound_tandem [C.Lawful] {p q : Parser NodeId} (hpq : C.Between φ p q) (depth : Nat)
    (moved : Bool) (items : List NodeId) :
    C.Tandem φ (.inside depth moved) (Parser.listRound p items) (Parser.listRound q items)
      (Tandem.rounds (.inside depth true) fun _ => .inside depth moved) := by
  refine .ifCheck .comma Mark.peeks_inside (fun t ht => ?_) (.pure rfl)
  refine .passing (Token.bracket_of_is ht) Mark.peeks_inside fun _ => ?_
  exact (hpq depth true).bind fun item => .pure rfl

namespace Between

variable [C.Lawful] {p q : Parser NodeId}

theorem delimited (hpq : C.Between φ p q) :
    C.Between φ (Parser.delimited p .comma) (Parser.delimited q .comma) :=
  fun depth moved => (hpq depth moved).bind fun first =>
    .loop (fun items => listRound_tandem hpq depth true items) [first]

theorem parenthesized (hpq : C.Between φ p q) {opening closing : TokenKind}
    (hopening : opening.bracket = .opening) (hclosing : closing.bracket = .closing) :
    C.Between φ (Parser.parenthesized opening closing p)
      (Parser.parenthesized opening closing q) := by
  intro depth moved
  have hopen := Tandem.expect (C := C) (φ := φ) (m := .inside depth moved) opening trivial
  have hclose := Tandem.expect (C := C) (φ := φ) (m := .inside (depth + 1) true) closing trivial
  rw [hopening] at hopen
  rw [hclosing] at hclose
  exact hopen.bind fun _ => (hpq (depth + 1) true).bind fun value => hclose.bind fun _ => .pure rfl

end Between

namespace Tandem

variable [C.Lawful] {p q : Parser NodeId} {read read' : Production → Parser NodeId}
  {h : NodeId → Mark}

/-- Elements between brackets, which may be the first that are opened. -/
theorem parenthesizedList (hm : m.Peeks) (hpq : C.Between φ p q)
    {opening closing : TokenKind} (hopening : opening.bracket = .opening)
    (hclosing : closing.bracket = .closing) :
    C.Tandem φ m (Parser.parenthesizedList opening closing p .comma)
      (Parser.parenthesizedList opening closing q .comma) fun _ => m.enclosed := by
  obtain ⟨depth, hinside⟩ := hm.turn_opening
  have hopen := expect (C := C) (φ := φ) opening hm
  have hpeeks : (Mark.inside depth true).Peeks := trivial
  have hclose := expect (C := C) (φ := φ) closing hpeeks
  rw [hopening, hinside] at hopen
  rw [hclosing, ← hinside] at hclose
  refine hopen.bind fun _ => .ifCheck closing Mark.peeks_inside (fun t ht => ?_) ?_
  · refine .passing ((Token.bracket_of_is ht).trans hclosing) Mark.peeks_inside fun _ => ?_
    rw [← hinside]
    exact .pure rfl
  · refine (hpq.delimited depth true).bind fun items => ?_
    rw [← hinside]
    exact hclose.bind fun _ => .pure rfl

/-! ## Choices -/

theorem attemptFrom {ps : List Production} {propagate : Bool} {last : Option Diagnostic}
    (hread : ∀ p ∈ ps, C.Tandem φ m (read p) (read' p) h) :
    C.Tandem φ m (Parser.attemptFrom propagate (ps.map (Production.ruleOf read)) last)
      (Parser.attemptFrom propagate (ps.map (Production.ruleOf read')) last)
      fun o => o.elim m h := by
  induction ps generalizing last with
  | nil =>
    cases last with
    | none => exact pure rfl
    | some d => exact cond (fun _ => fail) fun _ => pure rfl
  | cons p ps ih =>
    intro s t hst
    have hends := hread p List.mem_cons_self s t hst
    simp only [List.map_cons, Parser.attemptFrom, Production.ruleOf]
    generalize read p C.first s = r, read' p C.second t = r' at hends
    cases hends with
    | done meets => exact .done meets
    | @stopped e _ _ meets =>
      cases e with
      | failed d =>
        refine ih (fun q hq => hread q (List.mem_cons_of_mem _ hq)) _ _ ?_
        exact ⟨hst.place, hst.phase, hst.phase', Lawful.note meets.work rfl rfl⟩
      | exhausted => exact .stopped meets
    | spent hlenient => exact .spent hlenient

/-- A choice among productions that end alike. -/
theorem choice {options : List Production} {expected : String} (hm : m.Peeks)
    (hread : ∀ p ∈ options, C.Tandem φ m (read p) (read' p) h) :
    C.Tandem φ m (Parser.choice read options expected) (Parser.choice read' options expected)
      h := by
  refine looking hm fun ts us hsame => ?_
  rw [filter_ruleOf, filter_ruleOf, applies_sameAhead hsame]
  have hmem : ∀ p ∈ options.filter (Parser.applies us), C.Tandem φ m (read p) (read' p) h :=
    fun p hp => hread p (List.mem_of_mem_filter hp)
  generalize options.filter (Parser.applies us) = candidates at hmem
  cases candidates with
  | nil =>
    refine peek hm fun t => .always ?_
    rw [noRule_sameAhead hsame read read']
    exact fail
  | cons p candidates =>
    refine (attemptFrom hmem).bind fun o => ?_
    cases o with
    | none => exact fail
    | some id => exact pure rfl

end Tandem

end Coupling

end ApiSyntax
