/-
  ApiSyntax/Proofs/Parser/Likeness.lean --- parsers that keep a likeness.

  Two states are like when the tokens that remain correspond, one by one, and what is built does.
  A parser tracks itself when its runs from states that are like end alike.  A parser that
  answers with a token is compared by the correspondence of tokens, one that answers with a
  handle by the correspondence of handles (`Moves`).

  A trigger looks at kinds and texts only, so the same rules apply in both runs; and as many
  tokens remain in both, so the bound of a loop is the same.  Nested productions may be read on
  a larger bound by the second run.
-/
import ApiSyntax.Grammar.Production
import ApiSyntax.Proofs.Arena.Likeness
import ApiSyntax.Proofs.Parser.Steps

set_option autoImplicit false

namespace ApiSyntax

open ApiSyntax.Action

/-! ## What lies ahead -/

section Ahead

open ApiSyntax.Parser

variable {ts us : List Token} (h : List.Forall₂ Token.Alike ts us)
include h

theorem startsWith_alike (kind : TokenKind) : startsWith ts kind = startsWith us kind := by
  unfold startsWith
  cases h with
  | nil => rfl
  | cons ht _ => exact congrArg Except.ok (ht.is kind)

theorem startsWithKeyword_alike (word : String) :
    startsWithKeyword ts word = startsWithKeyword us word := by
  unfold startsWithKeyword
  cases h with
  | nil => rfl
  | cons ht _ => exact congrArg Except.ok (ht.isValue .keyword word)

theorem startsWithPair_alike (first : TokenKind) (second : List TokenKind) :
    startsWithPair ts first second = startsWithPair us first second := by
  unfold startsWithPair
  cases h with
  | nil => rfl
  | cons ht hrest =>
    dsimp only
    rw [ht.is first]
    cases hrest with
    | nil => rfl
    | cons hu _ =>
      dsimp only
      rw [hu.any_is second]

theorem Production.startsWithAny_alike (kinds : List TokenKind) :
    startsWithAny ts kinds = startsWithAny us kinds := by
  unfold startsWithAny
  cases h with
  | nil => rfl
  | cons ht _ => exact congrArg Except.ok (ht.any_is kinds)

/-- Whether a production applies depends on kinds and texts only. -/
theorem Production.trigger_alike (p : Production) : p.trigger ts = p.trigger us := by
  cases p with
  | identifier | intLiteral | realLiteral | listLiteral | parenthesized | unary | block
  | annotationCall => exact startsWith_alike h _
  | type | expression => exact startsWithAny_alike h _
  | pair | constructorCall | staticCall | instanceCall | assignment | signature | method =>
    exact startsWithPair_alike h _ _
  | returned | deferred | typeDef | within | withApis | api => exact startsWithKeyword_alike h _
  | program =>
    simp only [trigger]
    rw [startsWith_alike h, startsWithKeyword_alike h]

/-- The same productions apply to tokens that are alike. -/
theorem filter_accepts_alike (read read' : Production → Parser NodeId) (ps : List Production) :
    ((ps.map (Production.ruleOf read)).filter (·.accepts ts) =
        (ps.filter fun p => (p.ruleOf read).accepts ts).map (Production.ruleOf read)) ∧
      (ps.map (Production.ruleOf read')).filter (·.accepts us) =
        (ps.filter fun p => (p.ruleOf read).accepts ts).map (Production.ruleOf read') := by
  refine ⟨List.filter_map, ?_⟩
  rw [List.filter_map]
  refine congrArg _ (List.filter_congr fun p _ => ?_)
  have htrigger : (p.ruleOf read').trigger us = (p.ruleOf read).trigger ts :=
    (p.trigger_alike h).symm
  rw [Function.comp_apply, Rule.accepts, Rule.accepts, htrigger]

theorem any_isStarved_alike (read read' : Production → Parser NodeId) (ps : List Production) :
    (ps.map (Production.ruleOf read)).any (·.isStarved ts) =
      (ps.map (Production.ruleOf read')).any (·.isStarved us) := by
  rw [List.any_map, List.any_map]
  refine congrArg ps.any (funext fun p => ?_)
  have htrigger : (p.ruleOf read).trigger ts = (p.ruleOf read').trigger us := p.trigger_alike h
  rw [Function.comp_apply, Function.comp_apply, Rule.isStarved, Rule.isStarved, htrigger]

end Ahead

namespace Likeness

variable {L : Likeness}

/-! ## States -/

/-- The tokens that remain correspond; at the end the last tokens passed do. -/
structure Places (L : Likeness) (c d : Cursor) : Prop where
  rest : List.Forall₂ L.Tokens c.rest d.rest
  last : c.rest = [] → Option.Rel L.Tokens c.consumed.head? d.consumed.head?

/-- The tokens that remain correspond, and so does what is built. -/
structure States (L : Likeness) (s t : ParserState) : Prop where
  place : L.Places s.cursor t.cursor
  phase : s.phase = t.phase
  work : L.Works s.work t.work

section

variable [L.Lawful] {ts us : List Token}

theorem alike_all (h : List.Forall₂ L.Tokens ts us) : List.Forall₂ Token.Alike ts us :=
  h.imp fun _ _ => Lawful.alike

variable {c d : Cursor}

theorem Places.startToken (h : L.Places c d) : L.Tokens c.startToken d.startToken := by
  obtain ⟨hrest, hlast⟩ := h
  unfold Cursor.startToken
  generalize c.rest = ts, d.rest = us at hrest hlast
  cases hrest with
  | nil => exact Lawful.mark (hlast rfl)
  | cons htoken _ => exact htoken

theorem Places.check (h : L.Places c d) (kind : TokenKind) : c.check kind = d.check kind := by
  have hrest := alike_all h.rest
  unfold Cursor.check
  generalize c.rest = ts, d.rest = us at hrest
  cases hrest with
  | nil => rfl
  | cons htoken _ => exact htoken.is kind

theorem Places.checkKeyword (h : L.Places c d) (word : String) :
    c.checkKeyword word = d.checkKeyword word := by
  have hrest := alike_all h.rest
  unfold Cursor.checkKeyword Cursor.checkValue
  generalize c.rest = ts, d.rest = us at hrest
  cases hrest with
  | nil => rfl
  | cons htoken _ => exact htoken.isValue .keyword word

end

/-! ## Parsers -/

variable {α α' β β' γ γ' : Type} {env : ParserEnv} {R : α → α' → Prop} {Q : β → β' → Prop}

/-- From states that are like, the second parser keeps up with the first. -/
def Tracks (L : Likeness) (env : ParserEnv) (R : α → α' → Prop) (p : Parser α) (q : Parser α') :
    Prop := Action.Tracks L.States L.Fails R (p env) (q env)

/-- The same, with handles that correspond. -/
def Moves (L : Likeness) (env : ParserEnv) (p q : Parser NodeId) : Prop :=
  L.Tracks env (fun id id' => id' = L.move id) p q

/-- The same, with lists of handles that correspond. -/
def MovesAll (L : Likeness) (env : ParserEnv) (p q : Parser (List NodeId)) : Prop :=
  L.Tracks env (fun ids ids' => ids' = ids.map L.move) p q

namespace Tracks

variable {p : Parser α} {q : Parser α'}

/-! ## Single steps -/

theorem pure {a : α} {b : α'} (h : R a b) : L.Tracks env R (Pure.pure a) (Pure.pure b) :=
  Action.Tracks.pure h

theorem fail {d d' : Diagnostic} (h : L.Fails d d') :
    L.Tracks env R (Parser.fail d) (Parser.fail d') := Action.Tracks.fail h

theorem exhausted : L.Tracks env R Parser.exhausted q := Action.Tracks.exhausted

theorem bind {f : α → Parser β} {g : α' → Parser β'} (hp : L.Tracks env R p q)
    (hf : ∀ a b, R a b → L.Tracks env Q (f a) (g b)) : L.Tracks env Q (p >>= f) (q >>= g) :=
  Action.Tracks.bind hp hf

/-- The second result is a function of the first; then what follows. -/
theorem next {m : α → α'} {f : α → Parser β} {g : α' → Parser β'}
    (hp : L.Tracks env (fun a b => b = m a) p q)
    (hf : ∀ a, L.Tracks env Q (f a) (g (m a))) : L.Tracks env Q (p >>= f) (q >>= g) :=
  Action.Tracks.next hp hf

theorem cond {c : Prop} [Decidable c] {p' : Parser α} {q' : Parser α'}
    (h : c → L.Tracks env R p q) (h' : ¬c → L.Tracks env R p' q') :
    L.Tracks env R (if c then p else p') (if c then q else q') := by
  by_cases hc : c
  · rw [if_pos hc, if_pos hc]
    exact h hc
  · rw [if_neg hc, if_neg hc]
    exact h' hc

/-- A reply that is known beforehand. -/
theorem ofExcept {x : Except Diagnostic α} {y : Except Diagnostic α'}
    (h : Replies L.Fails R x y) : L.Tracks env R (Parser.ofExcept x) (Parser.ofExcept y) :=
  fun _ _ hst => .ask h hst

theorem atCursor {f : Cursor → α} {g : Cursor → α'} (h : ∀ c d, L.Places c d → R (f c) (g d)) :
    L.Tracks env R (Parser.atCursor f) (Parser.atCursor g) :=
  fun _ _ hst => .done (h _ _ hst.place) hst

theorem atArena {f : Arena → Except Diagnostic α} {g : Arena → Except Diagnostic α'}
    (h : ∀ a b, L.Arenas a b → Replies L.Fails R (f a) (g b)) :
    L.Tracks env R (Parser.atArena f) (Parser.atArena g) :=
  fun _ _ hst => .ask (h _ _ hst.work.arena) hst

theorem building {x : Action Workspace Stop α} {y : Action Workspace Stop α'}
    (h : Action.Tracks L.Works L.Fails R x y) :
    L.Tracks env R (Parser.building x) (Parser.building y) := by
  intro s t hst
  have hpaced := h _ _ hst.work
  rw [Parser.building_run, Parser.building_run]
  generalize x s.work = r, y t.work = r' at hpaced
  cases hpaced with
  | done h meets => exact .done h ⟨hst.place, hst.phase, meets⟩
  | failed h meets => exact .failed h ⟨hst.place, hst.phase, meets⟩
  | spent => exact .spent

/-- The events may tell of different positions and handles. -/
theorem note (e e' : Event) :
    L.Tracks env (fun a b : Unit => b = a) (Parser.note e) (Parser.note e') :=
  building (note_tracks e e')

theorem alloc {t u : Token} (h : L.Tokens t u) {e e' : Expr} (he : e.rename L.move = e') :
    L.Moves env (Parser.alloc t e) (Parser.alloc u e') := by
  subst he
  exact building (onArena_tracks (alloc_tracks h e))

theorem duplicate (id : NodeId) :
    L.Moves env (Parser.duplicate id) (Parser.duplicate (L.move id)) :=
  building (onArena_tracks (duplicate_tracks id))

theorem expr (id : NodeId) : L.Tracks env (fun e e' => e' = e.rename L.move)
    (Parser.atArena (·.expr id)) (Parser.atArena (·.expr (L.move id))) :=
  atArena fun _ _ h => h.expr id

theorem node (id : NodeId) :
    L.Tracks env L.Nodes (Parser.atArena (·.node id)) (Parser.atArena (·.node (L.move id))) :=
  atArena fun _ _ h => h.node id

theorem phase : L.Tracks env (fun a b => b = a) Parser.phase Parser.phase :=
  fun _ _ hst => .done hst.phase.symm hst

theorem state : L.Tracks env L.States Parser.state Parser.state := fun _ _ hst => .done hst hst

/-- Both parsers are given the same. -/
theorem environment {f : ParserEnv → Parser β} {g : ParserEnv → Parser β'}
    (h : L.Tracks env Q (f env) (g env)) :
    L.Tracks env Q (Parser.env >>= f) (Parser.env >>= g) := fun s t hst => h s t hst

/-! ## Tokens -/

section Tokens

variable [L.Lawful]

theorem check (kind : TokenKind) :
    L.Tracks env (fun a b => b = a) (Parser.check kind) (Parser.check kind) :=
  atCursor fun _ _ h => (h.check kind).symm

theorem checkKeyword (word : String) :
    L.Tracks env (fun a b => b = a) (Parser.checkKeyword word) (Parser.checkKeyword word) :=
  atCursor fun _ _ h => (h.checkKeyword word).symm

theorem startToken : L.Tracks env L.Tokens Parser.startToken Parser.startToken :=
  atCursor fun _ _ h => h.startToken

omit [L.Lawful] in
theorem remaining :
    L.Tracks env (List.Forall₂ L.Tokens) Parser.remaining Parser.remaining :=
  atCursor fun _ _ h => h.rest

omit [L.Lawful] in
theorem peek : L.Tracks env L.Tokens Parser.peek Parser.peek := by
  intro s t hst
  have hrest := hst.place.rest
  generalize hs : s.cursor.rest = ts, ht : t.cursor.rest = us at hrest
  cases hrest with
  | nil =>
    rw [Parser.peek_run_nil hs, Parser.peek_run_nil ht]
    exact .failed (.of rfl) hst
  | cons htoken _ =>
    rw [Parser.peek_run hs, Parser.peek_run ht]
    exact .done htoken hst

omit [L.Lawful] in
theorem consume : L.Tracks env L.Tokens Parser.consume Parser.consume := by
  intro s t hst
  have hrest := hst.place.rest
  generalize hs : s.cursor.rest = ts, ht : t.cursor.rest = us at hrest
  cases hrest with
  | nil =>
    rw [Parser.consume_run_nil hs, Parser.consume_run_nil ht]
    exact .failed (.of rfl) hst
  | cons htoken htokens =>
    rw [Parser.consume_run hs, Parser.consume_run ht]
    exact .done htoken ⟨⟨htokens, fun _ => .some htoken⟩, hst.phase, hst.work⟩

theorem expectOr {kind : TokenKind} {f : Token → Bool} {error : Token → Diagnostic}
    (hf : ∀ t u : Token, t.Alike u → f t = f u)
    (herror : ∀ t u : Token, L.Tokens t u → L.Fails (error t) (error u)) :
    L.Tracks env L.Tokens (Parser.expectOr kind f error) (Parser.expectOr kind f error) := by
  refine peek.bind fun t u htu => ?_
  have halike : t.Alike u := Lawful.alike htu
  rw [halike.is kind, hf t u halike]
  exact .cond (fun _ => consume) fun _ => .fail (herror t u htu)

theorem expect (kind : TokenKind) :
    L.Tracks env L.Tokens (Parser.expect kind) (Parser.expect kind) :=
  expectOr (fun _ _ _ => rfl) fun _ _ htu => .unexpected htu _

theorem expectKeyword (word : String) :
    L.Tracks env L.Tokens (Parser.expectKeyword word) (Parser.expectKeyword word) :=
  expectOr (fun _ _ htu => by rw [htu.value]) fun _ _ htu => .unexpected htu _

theorem expectAny (kinds : List TokenKind) (consumes : Bool) :
    L.Tracks env L.Tokens (Parser.expectAny kinds consumes) (Parser.expectAny kinds consumes) := by
  refine peek.bind fun t u htu => ?_
  rw [(Lawful.alike htu : t.Alike u).any_is kinds]
  refine .cond (fun _ => ?_) fun _ => .fail (.unexpected htu _)
  exact .cond (fun _ => consume) fun _ => .pure htu

theorem expectEnd : L.Tracks env (fun a b => b = a) Parser.expectEnd Parser.expectEnd := by
  intro s t hst
  have hrest := hst.place.rest
  unfold Parser.expectEnd
  generalize s.cursor.rest = ts, t.cursor.rest = us at hrest
  cases hrest with
  | nil => exact .done rfl hst
  | cons htoken _ => exact .failed (.unexpected htoken _) hst

end Tokens

/-! ## Giving up and phases -/

theorem attempt {m : α → α'} (hp : L.Tracks env (fun a b => b = m a) p q) :
    L.Tracks env (fun o o' => o' = o.map m) (Parser.attempt p) (Parser.attempt q) := by
  intro s t hst
  have hpaced := hp s t hst
  unfold Parser.attempt
  dsimp only
  generalize p env s = r, q env t = r' at hpaced
  cases hpaced with
  | done h meets => exact .done (congrArg some h) meets
  | failed _ meets =>
    -- Both stand where they stood before; what was built meanwhile stays, and corresponds.
    exact .done rfl ⟨hst.place, hst.phase, meets.work.arena, meets.work.operators⟩
  | spent => exact .spent

theorem inPhase (inner : Phase) (h : L.Tracks env R p q) :
    L.Tracks env R (Parser.inPhase inner p) (Parser.inPhase inner q) := by
  intro s t hst
  have hpaced := h { s with phase := inner } { t with phase := inner } ⟨hst.place, rfl, hst.work⟩
  unfold Parser.inPhase
  dsimp only
  generalize p env { s with phase := inner } = r, q env { t with phase := inner } = r' at hpaced
  cases hpaced with
  | done h meets => exact .done h ⟨meets.place, hst.phase, meets.work⟩
  | failed h meets => exact .failed h ⟨meets.place, hst.phase, meets.work⟩
  | spent => exact .spent

/-! ## Loops -/

/-- Both rounds are the last ones, or neither is. -/
inductive Rounds (R : α → α' → Prop) (Q : γ → γ' → Prop) :
    Parser.Round α γ → Parser.Round α' γ' → Prop
  | more {a : α} {b : α'} (h : R a b) : Rounds R Q (.more a) (.more b)
  | done {c : γ} {d : γ'} (h : Q c d) : Rounds R Q (.done c) (.done d)

/-- Rounds that end alike make loops that do, on a bound that is no smaller. -/
theorem loopN {P : γ → γ' → Prop} {round : α → Parser (Parser.Round α γ)}
    {round' : α' → Parser (Parser.Round α' γ')} {n n' : Nat} (hn : n ≤ n')
    (hround : ∀ a b, R a b → L.Tracks env (Rounds R P) (round a) (round' b)) {a : α} {b : α'}
    (h : R a b) : L.Tracks env P (Parser.loopN round n a) (Parser.loopN round' n' b) := by
  induction n generalizing n' a b with
  | zero => exact exhausted
  | succ n ih =>
    obtain ⟨n', rfl⟩ : ∃ k, n' = k + 1 := ⟨n' - 1, by omega⟩
    unfold Parser.loopN
    refine (hround a b h).bind fun r r' hr => ?_
    cases hr with
    | more h => exact ih (Nat.le_of_succ_le_succ hn) h
    | done h => exact .pure h

/-- As many tokens remain in both runs, so the bound on the number of rounds is the same. -/
theorem loop {P : γ → γ' → Prop} {round : α → Parser (Parser.Round α γ)}
    {round' : α' → Parser (Parser.Round α' γ')}
    (hround : ∀ a b, R a b → L.Tracks env (Rounds R P) (round a) (round' b)) {a : α} {b : α'}
    (h : R a b) : L.Tracks env P (Parser.loop round a) (Parser.loop round' b) := by
  intro s t hst
  have hlength : s.cursor.rest.length + 1 ≤ t.cursor.rest.length + 1 :=
    Nat.le_of_eq (congrArg (· + 1) hst.place.rest.length_eq)
  exact loopN hlength hround h s t hst

variable [L.Lawful]

theorem delimited {p q : Parser NodeId} (h : L.Moves env p q) (delimiter : TokenKind) :
    L.MovesAll env (Parser.delimited p delimiter) (Parser.delimited q delimiter) := by
  refine Tracks.next h fun first => loop (R := fun items items' => items' = items.map L.move) ?_ rfl
  rintro items _ rfl
  refine (check delimiter).next fun c => .cond (fun _ => ?_) fun _ => .pure (.done rfl)
  refine consume.bind fun _ _ _ => Tracks.next h fun item => .pure (.more ?_)
  rw [List.map_append, List.map_singleton]

theorem parenthesized (h : L.Tracks env R p q) (opening closing : TokenKind) :
    L.Tracks env R (Parser.parenthesized opening closing p)
      (Parser.parenthesized opening closing q) := by
  refine (expect opening).bind fun _ _ _ => h.bind fun value value' hvalue => ?_
  exact (expect closing).bind fun _ _ _ => .pure hvalue

theorem parenthesizedList {p q : Parser NodeId} (h : L.Moves env p q)
    (opening closing delimiter : TokenKind) :
    L.MovesAll env (Parser.parenthesizedList opening closing p delimiter)
      (Parser.parenthesizedList opening closing q delimiter) := by
  refine (expect opening).bind fun _ _ _ => (check closing).next fun c => ?_
  refine .cond (fun _ => consume.bind fun _ _ _ => .pure rfl) fun _ => ?_
  refine Tracks.next (delimited h delimiter) fun items => ?_
  exact (expect closing).bind fun _ _ _ => .pure rfl

/-! ## Choices -/

variable {read read' : Production → Parser NodeId}

theorem noRule {ts us : List Token} {t u : Token} (h : List.Forall₂ L.Tokens ts us)
    (htu : L.Tokens t u) (ps : List Production) (expected : String) :
    L.Fails (Parser.noRule (ps.map (Production.ruleOf read)) ts t expected)
      (Parser.noRule (ps.map (Production.ruleOf read')) us u expected) := by
  unfold Parser.noRule
  rw [any_isStarved_alike (alike_all h) read read' ps]
  split
  · exact (Fails.of rfl).placed (Lawful.span htu)
  · exact .unexpected htu expected

omit [L.Lawful] in
theorem attemptFrom {propagate : Bool} {ps : List Production} {last last' : Option Diagnostic}
    (hread : ∀ p ∈ ps, L.Moves env (read p) (read' p)) (hlast : Option.Rel L.Fails last last') :
    L.Tracks env (fun o o' => o' = o.map L.move)
      (Parser.attemptFrom propagate (ps.map (Production.ruleOf read)) last)
      (Parser.attemptFrom propagate (ps.map (Production.ruleOf read')) last') := by
  induction ps generalizing last last' with
  | nil =>
    cases hlast with
    | none => exact .pure rfl
    | some hd => exact .cond (fun _ => .fail hd) fun _ => .pure rfl
  | cons p ps ih =>
    intro s t hst
    have hpaced := hread p List.mem_cons_self s t hst
    simp only [List.map_cons, Parser.attemptFrom, Production.ruleOf]
    generalize read p env s = r, read' p env t = r' at hpaced
    cases hpaced with
    | done h meets => exact .done (congrArg some h) meets
    | failed hd meets =>
      refine ih (fun q hq => hread q (List.mem_cons_of_mem _ hq)) (.some hd) _ _ ?_
      exact ⟨hst.place, hst.phase, meets.work.arena, meets.work.operators⟩
    | spent => exact .spent

/-- A choice among productions that end alike. -/
theorem choice {options : List Production} {expected : String}
    (hread : ∀ p ∈ options, L.Moves env (read p) (read' p)) :
    L.Moves env (Parser.choice read options expected) (Parser.choice read' options expected) := by
  refine remaining.bind fun ts us hrest => ?_
  obtain ⟨hfirst, hsecond⟩ := filter_accepts_alike (alike_all hrest) read read' options
  rw [hfirst, hsecond]
  have hmem : ∀ p ∈ options.filter (fun p => (p.ruleOf read).accepts ts),
      L.Moves env (read p) (read' p) := fun p hp => hread p (List.mem_of_mem_filter hp)
  generalize options.filter (fun p => (p.ruleOf read).accepts ts) = candidates at hmem
  cases candidates with
  | nil => exact peek.bind fun t u htu => .fail (noRule hrest htu options expected)
  | cons p candidates =>
    refine Tracks.next (attemptFrom hmem .none) fun o => ?_
    cases o with
    | none => exact .fail (.of rfl)
    | some id => exact .pure rfl

/-! ## The top level -/

/-- One round of the top level. -/
theorem executeRound {ps : List Production} (hread : ∀ p ∈ ps, L.Moves env (read p) (read' p))
    (nodes : List NodeId) : L.Tracks env
      (Rounds (fun ids ids' => ids' = ids.map L.move) fun ids ids' => ids' = ids.map L.move)
      (Parser.executeRound (ps.map (Production.ruleOf read)) nodes)
      (Parser.executeRound (ps.map (Production.ruleOf read')) (nodes.map L.move)) := by
  refine remaining.bind fun ts us hrest => ?_
  obtain ⟨hfirst, hsecond⟩ := filter_accepts_alike (alike_all hrest) read read' ps
  cases hrest with
  | nil => exact .pure (.done rfl)
  | @cons t u ts us htu hrest' =>
    have hrest : List.Forall₂ L.Tokens (t :: ts) (u :: us) := .cons htu hrest'
    dsimp only
    rw [hfirst, hsecond]
    have hmem : ∀ p ∈ ps.filter (fun p => (p.ruleOf read).accepts (t :: ts)),
        L.Moves env (read p) (read' p) := fun p hp => hread p (List.mem_of_mem_filter hp)
    generalize ps.filter (fun p => (p.ruleOf read).accepts (t :: ts)) = matching at hmem
    have hskip : ∀ n n' : Nat, L.Tracks env
        (Rounds (fun ids ids' => ids' = ids.map L.move) fun ids ids' => ids' = ids.map L.move)
        (do
          let skipped ← Parser.consume
          Parser.note (.discarded skipped.value skipped.span n)
          return (.more nodes : Parser.Round (List NodeId) (List NodeId)))
        (do
          let skipped ← Parser.consume
          Parser.note (.discarded skipped.value skipped.span n')
          return .more (nodes.map L.move)) :=
      fun _ _ => consume.bind fun _ _ _ => (note _ _).next fun _ => .pure (.more rfl)
    have hnames : ∀ qs : List Production, (qs.map (Production.ruleOf read)).map (·.name) =
        (qs.map (Production.ruleOf read')).map (·.name) := by
      intro qs
      rw [List.map_map, List.map_map]
      rfl
    have hambiguous : ∀ qs : List Production,
        L.Fails
          ((Diagnostic.of (.ambiguousGrammar (", ".intercalate
            ((qs.map (Production.ruleOf read)).map (·.name))))).placed t.span)
          ((Diagnostic.of (.ambiguousGrammar (", ".intercalate
            ((qs.map (Production.ruleOf read')).map (·.name))))).placed u.span) := by
      intro qs
      rw [hnames qs]
      exact (Fails.of rfl).placed (Lawful.span htu)
    -- No production applies, exactly one does, or several do.
    rcases matching with _ | ⟨p, _ | ⟨p', matching⟩⟩
    · refine environment (.cond (fun _ => hskip _ _) fun _ => ?_)
      rw [hnames]
      exact .fail (noRule hrest htu ps _)
    · refine (note _ _).next fun _ => Tracks.next (hmem p List.mem_cons_self) fun id => ?_
      refine .pure (.more ?_)
      rw [List.map_append, List.map_singleton]
    · refine environment (.cond (fun _ => hskip _ _) fun _ => (note _ _).next fun _ => ?_)
      exact .fail (hambiguous (p :: p' :: matching))

theorem execute {ps : List Production} (hread : ∀ p ∈ ps, L.Moves env (read p) (read' p)) :
    L.MovesAll env (Parser.execute (ps.map (Production.ruleOf read)))
      (Parser.execute (ps.map (Production.ruleOf read'))) := by
  refine loop (R := fun ids ids' => ids' = ids.map L.move) ?_ rfl
  rintro ids _ rfl
  exact executeRound hread ids

end Tracks

end Likeness

end ApiSyntax
