/-
  ApiSyntax/Proofs/Parser/Discipline.lean --- what every step of a parser keeps to.

  A discipline is a relation between what a parser finds and what it leaves, whether it
  succeeds or fails, and a meaning for the roles of nodes.  `Keeps` says that a parser keeps
  to a discipline, given what is known of nodes and operators made before, and what is known
  of its result.  There is one rule for each combinator.  So the grammar is gone through
  once, and what it keeps to is a matter of the few laws of a discipline.

  What is known once stays known, so the rules carry a list of what is known from step to
  step, and a node can be made when all that its contents require is in the list.
-/
import ApiSyntax.Grammar.Basic
import ApiSyntax.Proofs.Arena.Roles
import ApiSyntax.Proofs.Parser.Steps

set_option autoImplicit false

namespace ApiSyntax

/-! ## Disciplines -/

/-- What a discipline sees of a state: the tokens that remain, the arena, the operators. -/
structure Stage where
  rest : List Token
  arena : Arena
  operators : OperatorTable

/-- The workspace behind which the tokens `rest` remain. -/
def Workspace.stage (w : Workspace) (rest : List Token) : Stage := ⟨rest, w.arena, w.operators⟩

/-- What a discipline sees of a state. -/
def ParserState.stage (s : ParserState) : Stage := s.work.stage s.cursor.rest

/-- What a run may leave where it finds something, and what the role of a node says. -/
structure Discipline where
  Rel : Stage → Stage → Prop
  Is : Role → NodeId → Arena → Prop

namespace Discipline

/-- What is known holds. -/
def Holds (D : Discipline) (x : Stage) : Known → Prop
  | .has id role => D.Is role id x.arena
  | .declared symbol fixity => x.operators.contains symbol fixity

/-- All of the list is known. -/
def Knows (D : Discipline) (known : List Known) (x : Stage) : Prop := ∀ k ∈ known, D.Holds x k

/-- The steps of a parser keep to the discipline.  The making of annotations is left open. -/
class Lawful (D : Discipline) : Prop where
  refl (x : Stage) : D.Rel x x
  trans {x y z : Stage} (h : D.Rel x y) (h' : D.Rel y z) : D.Rel x z
  /-- What is known stays known. -/
  lasts {x y : Stage} {k : Known} (h : D.Rel x y) (hk : D.Holds x k) : D.Holds y k
  /-- A token is passed. -/
  pass (t : Token) (x : Stage) : D.Rel { x with rest := t :: x.rest } x
  /-- The place is taken back. -/
  back {x y : Stage} (h : D.Rel x y) : D.Rel x { y with rest := x.rest }
  /-- A node is looked at. -/
  look {a : Arena} {id : NodeId} {r r' : Role} (h : D.Is r id a)
    (he : ∀ e, a.expr id = .ok e → r.admits e → r'.admits e) : D.Is r' id a
  /-- A node is made. -/
  alloc {x : Stage} {e : Expr} {r : Role} (token : Token) (h : D.Knows e.requires x)
    (he : (e.kind == .annotationCall) = false) (hr : r.admits e) :
    D.Rel x { x with arena := x.arena.push token e } ∧
      D.Is r x.arena.next (x.arena.push token e)
  /-- A type, or a name with its type, is copied. -/
  copy {x : Stage} {id : NodeId} {r : Role} (h : D.Is r id x.arena) (hr : r.isTyping) :
    D.Rel x { x with arena := (x.arena.duplicate id).2 } ∧
      ∀ copy, (x.arena.duplicate id).1 = .ok copy → D.Is r copy (x.arena.duplicate id).2
  /-- An expression is settled. -/
  settle {w : Workspace} {id : NodeId} (rest : List Token) (h : D.Is .expression id w.arena) :
    D.Rel (w.stage rest) ((Workspace.settle id w).2.stage rest) ∧
      ∀ top, (Workspace.settle id w).1 = .ok top →
        D.Is .expression top (Workspace.settle id w).2.arena
  /-- An expression becomes a unit. -/
  enclose {x : Stage} {id : NodeId} {e : Expr} (h : x.arena.expr id = .ok e) :
    D.Rel x { x with arena := x.arena.setExpr id (Grammar.Expr.enclose e) }
  /-- A node gets a tag. -/
  tag {x : Stage} {id : NodeId} {t : Tag} {new : Bool} {a : Arena}
    (h : x.arena.tag id t = .ok (new, a)) : D.Rel x { x with arena := a }

variable {D : Discipline} {α β γ : Type} {env : ParserEnv} {known known' : List Known} {x y : Stage}

theorem knows_nil : D.Knows [] x := fun _ h => absurd h List.not_mem_nil

theorem Knows.subset (h : D.Knows known x) (hsub : known' ⊆ known) : D.Knows known' x :=
  fun k hk => h k (hsub hk)

theorem knows_append : D.Knows (known ++ known') x ↔ D.Knows known x ∧ D.Knows known' x := by
  constructor
  · intro h
    exact ⟨h.subset (List.subset_append_left _ _), h.subset (List.subset_append_right _ _)⟩
  · rintro ⟨h, h'⟩ k hk
    rcases List.mem_append.mp hk with hk | hk
    · exact h k hk
    · exact h' k hk

theorem knows_cons {k : Known} : D.Knows (k :: known) x ↔ D.Holds x k ∧ D.Knows known x :=
  List.forall_mem_cons

/-- The handles have the role. -/
def all (r : Role) (ids : List NodeId) : List Known := ids.map (.has · r)

/-- The parser keeps to the discipline wherever the list `known` is known, and `after` is known of
its result. -/
def Keeps (D : Discipline) (env : ParserEnv) (known : List Known) (p : Parser α)
    (after : α → List Known) : Prop :=
  ∀ s, D.Knows known s.stage → D.Rel s.stage (p env s).2.stage ∧
    ∀ a, (p env s).1 = .ok a → D.Knows (after a) (p env s).2.stage

/-- The parser keeps to the discipline, and its result is a node of the role. -/
def Yields (D : Discipline) (env : ParserEnv) (known : List Known) (p : Parser NodeId)
    (r : Role) : Prop :=
  D.Keeps env known p fun id => [.has id r]

theorem Knows.later [D.Lawful] (h : D.Knows known x) (hrel : D.Rel x y) : D.Knows known y :=
  fun k hk => Lawful.lasts hrel (h k hk)

/-- What is made as one role may be seen as another one. -/
theorem Yields.le [D.Lawful] {p : Parser NodeId} {r r' : Role} (h : D.Yields env known p r)
    (hle : r.le r') : D.Yields env known p r' := by
  intro s hs
  obtain ⟨hrel, hok⟩ := h s hs
  refine ⟨hrel, fun id hid => ?_⟩
  have his : D.Is r id (p env s).2.work.arena := hok id hid _ List.mem_cons_self
  exact knows_cons.mpr ⟨Lawful.look his fun _ _ => Role.admits_of_le hle, knows_nil⟩

namespace Keeps

variable {p : Parser α} {f : α → Parser β} {after after' : α → List Known}
  {final : β → List Known}

/-- More may be known before, and less be said afterwards. -/
theorem mono (h : D.Keeps env known p after) (hknown : known ⊆ known')
    (hafter : ∀ a, after' a ⊆ after a) : D.Keeps env known' p after' := by
  intro s hs
  obtain ⟨hrel, hok⟩ := h s (hs.subset hknown)
  exact ⟨hrel, fun a ha => (hok a ha).subset (hafter a)⟩

theorem more (h : D.Keeps env [] p after) : D.Keeps env known p after :=
  h.mono (List.nil_subset _) fun _ => List.Subset.refl _

/-- What a run leaves, whether or not it succeeds. -/
theorem rel_of_run {s s' : ParserState} {r : Except Stop α} (h : D.Keeps env [] p after)
    (hrun : p env s = (r, s')) : D.Rel s.stage s'.stage := by
  have hrel := (h s knows_nil).1
  rwa [hrun] at hrel

/-- What is known of the result of a run. -/
theorem knows_of_run {s s' : ParserState} {a : α} (h : D.Keeps env [] p after)
    (hrun : p env s = (.ok a, s')) : D.Knows (after a) s'.stage := by
  have hok := (h s knows_nil).2 a
  rw [hrun] at hok
  exact hok rfl

variable [D.Lawful]

/-- A step that does not touch what a discipline sees. -/
theorem silent (h : ∀ s, (p env s).2.stage = s.stage) (hafter : ∀ a, after a ⊆ known) :
    D.Keeps env known p after := by
  intro s hs
  rw [h s]
  exact ⟨Lawful.refl _, fun a _ => hs.subset (hafter a)⟩

theorem question (h : ∀ s, (p env s).2 = s) : D.Keeps env known p fun _ => [] :=
  silent (fun s => by rw [h s]) fun _ => List.nil_subset _

theorem pure {a : α} (h : after a ⊆ known) : D.Keeps env known (Pure.pure a) after := by
  intro s hs
  refine ⟨Lawful.refl _, fun b hb => ?_⟩
  cases hb
  exact hs.subset h

theorem fail {d : Diagnostic} : D.Keeps env known (Parser.fail d) after :=
  fun _ _ => ⟨Lawful.refl _, fun _ ha => nomatch ha⟩

theorem exhausted : D.Keeps env known Parser.exhausted after :=
  fun _ _ => ⟨Lawful.refl _, fun _ ha => nomatch ha⟩

/-- A step, then what follows from its result, knowing all that was known and what the step
adds. -/
theorem bind (hp : D.Keeps env known p after)
    (hf : ∀ a, D.Keeps env (after a ++ known) (f a) final) :
    D.Keeps env known (p >>= f) final := by
  intro s hs
  obtain ⟨hrel, hok⟩ := hp s hs
  rw [Parser.bind_run, Action.bind_run]
  cases hrun : p env s with
  | mk result s' =>
    rw [hrun] at hrel hok
    cases result with
    | error e => exact ⟨hrel, fun _ ha => nomatch ha⟩
    | ok a =>
      have hknown : D.Knows (after a ++ known) s'.stage :=
        knows_append.mpr ⟨hok a rfl, hs.later hrel⟩
      obtain ⟨hrel', hok'⟩ := hf a s' hknown
      exact ⟨Lawful.trans hrel hrel', hok'⟩

/-- A step of which nothing is to be said but that it keeps to the discipline. -/
theorem skip (hp : D.Keeps env known p fun _ => []) (hf : ∀ a, D.Keeps env known (f a) final) :
    D.Keeps env known (p >>= f) final :=
  hp.bind hf

omit [D.Lawful] in
theorem cond {c : Prop} [Decidable c] {q : Parser α} (hp : c → D.Keeps env known p after)
    (hq : ¬c → D.Keeps env known q after) :
    D.Keeps env known (if c then p else q) after := by
  by_cases hc : c
  · rw [if_pos hc]
    exact hp hc
  · rw [if_neg hc]
    exact hq hc

/-- A node of one role is one of another role too. -/
theorem viewed (r' : Role) {id : NodeId} {r : Role} (hid : .has id r ∈ known) (hle : r.le r')
    (h : D.Keeps env (.has id r' :: known) p after) : D.Keeps env known p after := by
  intro s hs
  apply h
  apply knows_cons.mpr
  exact ⟨Lawful.look (hs _ hid) fun _ _ => Role.admits_of_le hle, hs⟩

/-! ## Single steps -/

theorem check {kind : TokenKind} : D.Keeps env known (Parser.check kind) fun _ => [] :=
  question fun _ => rfl

theorem checkKeyword {word : String} :
    D.Keeps env known (Parser.checkKeyword word) fun _ => [] :=
  question fun _ => rfl

theorem remaining : D.Keeps env known Parser.remaining fun _ => [] := question fun _ => rfl

theorem startToken : D.Keeps env known Parser.startToken fun _ => [] := question fun _ => rfl

theorem peek : D.Keeps env known Parser.peek fun _ => [] := question fun _ => rfl

theorem environment : D.Keeps env known Parser.env fun _ => [] := question fun _ => rfl

/-- A question about the arena tells of nodes what `after` says. -/
theorem atArena {g : Arena → Except Diagnostic α}
    (h : ∀ x a, D.Knows known x → g x.arena = .ok a → D.Knows (after a) x) :
    D.Keeps env known (Parser.atArena g) after := by
  intro s hs
  refine ⟨Lawful.refl _, fun a ha => h _ a hs ?_⟩
  change (g s.work.arena).mapError Stop.failed = .ok a at ha
  change g s.work.arena = .ok a
  cases hg : g s.work.arena with
  | error d =>
    rw [hg] at ha
    cases ha
  | ok b =>
    rw [hg] at ha
    cases ha
    rfl

theorem note {e : Event} : D.Keeps env known (Parser.note e) fun _ => [] :=
  silent (fun _ => rfl) fun _ => List.nil_subset _

theorem consume : D.Keeps env known Parser.consume fun _ => [] := by
  intro s _
  cases hrest : s.cursor.rest with
  | nil =>
    rw [Parser.consume_run_nil hrest]
    exact ⟨Lawful.refl _, fun _ _ => knows_nil⟩
  | cons t rest =>
    rw [Parser.consume_run hrest]
    have hpass := Lawful.pass (D := D) t (s.work.stage rest)
    have hstage : s.stage = { s.work.stage rest with rest := t :: rest } := by
      rw [ParserState.stage, hrest]
      rfl
    rw [hstage]
    exact ⟨hpass, fun _ _ => knows_nil⟩

theorem expectOr {kind : TokenKind} {p : Token → Bool} {error : Token → Diagnostic} :
    D.Keeps env known (Parser.expectOr kind p error) fun _ => [] := by
  unfold Parser.expectOr
  apply peek.skip fun t => ?_
  apply cond
  · exact fun _ => consume
  · exact fun _ => fail

theorem expect {kind : TokenKind} : D.Keeps env known (Parser.expect kind) fun _ => [] := expectOr

theorem expectKeyword {word : String} :
    D.Keeps env known (Parser.expectKeyword word) fun _ => [] := expectOr

theorem expectAny {kinds : List TokenKind} {consumes : Bool} :
    D.Keeps env known (Parser.expectAny kinds consumes) fun _ => [] := by
  unfold Parser.expectAny
  apply peek.skip fun t => ?_
  apply cond
  · intro _
    apply cond
    · exact fun _ => consume
    · exact fun _ => pure (List.nil_subset _)
  · exact fun _ => fail

/-- A node is made of which all is known that its contents require. -/
theorem alloc {token : Token} {e : Expr} {r : Role} (h : e.requires ⊆ known)
    (he : (e.kind == .annotationCall) = false) (hr : r.admits e) :
    D.Yields env known (Parser.alloc token e) r := by
  intro s hs
  obtain ⟨hrel, his⟩ := Lawful.alloc token (hs.subset h) he hr
  refine ⟨hrel, fun id hid => ?_⟩
  cases hid
  exact knows_cons.mpr ⟨his, knows_nil⟩

/-- A node is made as one of the role `r`, and the parser goes on. -/
theorem making (r : Role) {token : Token} {e : Expr} {f : NodeId → Parser β}
    (h : e.requires ⊆ known) (he : (e.kind == .annotationCall) = false) (hr : r.admits e)
    (hf : ∀ id, D.Keeps env (.has id r :: known) (f id) final) :
    D.Keeps env known (Parser.alloc token e >>= f) final :=
  (alloc h he hr).bind hf

theorem duplicate {id : NodeId} {r : Role} (h : .has id r ∈ known) (hr : r.isTyping) :
    D.Yields env known (Parser.duplicate id) r := by
  intro s hs
  obtain ⟨hrel, his⟩ := Lawful.copy (hs _ h) hr
  refine ⟨hrel, fun copy hcopy => ?_⟩
  exact knows_cons.mpr ⟨his copy hcopy, knows_nil⟩

theorem settle {id : NodeId} (h : .has id .expression ∈ known) :
    D.Yields env known (Parser.building (Workspace.settle id)) .expression := by
  intro s hs
  obtain ⟨hrel, his⟩ := Lawful.settle s.cursor.rest (hs _ h)
  refine ⟨hrel, fun top htop => ?_⟩
  exact knows_cons.mpr ⟨his top htop, knows_nil⟩

theorem tag {id : NodeId} {t : Tag} :
    D.Keeps env known (Parser.working (Workspace.tag id t)) fun _ => [] := by
  intro s _
  constructor
  · cases htag : s.work.arena.tag id t with
    | error d =>
      have hrun : Workspace.tag id t s.work = (.error d, s.work) := by
        simp only [Workspace.tag, Workspace.edit, Workspace.onArena, htag]
      rw [Parser.working, Parser.building_run, Action.mapError, hrun]
      exact Lawful.refl _
    | ok answer =>
      have hrun : Workspace.tag id t s.work = (.ok answer.1, { s.work with arena := answer.2 }) := by
        simp only [Workspace.tag, Workspace.edit, Workspace.onArena, htag]
      rw [Parser.working, Parser.building_run, Action.mapError, hrun]
      exact Lawful.tag (x := s.stage) htag
  · exact fun _ _ => knows_nil

/-! ## Giving up, phases and loops -/

theorem attempt (hp : D.Keeps env known p after) :
    D.Keeps env known (Parser.attempt p) fun o => o.elim [] after := by
  intro s hs
  obtain ⟨hrel, hok⟩ := hp s hs
  unfold Parser.attempt
  cases hrun : p env s with
  | mk result s' =>
    rw [hrun] at hrel hok
    match result with
    | .ok a =>
      refine ⟨hrel, fun o ho => ?_⟩
      cases ho
      exact hok a rfl
    | .error (.failed d) =>
      refine ⟨Lawful.back hrel, fun o ho => ?_⟩
      cases ho
      exact knows_nil
    | .error .exhausted => exact ⟨hrel, fun _ ho => nomatch ho⟩

omit [D.Lawful] in
theorem inPhase {inner : Phase} (hp : D.Keeps env known p after) :
    D.Keeps env known (Parser.inPhase inner p) after :=
  fun s hs => hp { s with phase := inner } hs

/-- What is known behind a round of a loop. -/
def rounds (I : β → List Known) (after : γ → List Known) : Parser.Round β γ → List Known
  | .more b => I b
  | .done c => after c

/-- A loop of which each round leaves known what the next one needs. -/
theorem loop {round : β → Parser (Parser.Round β γ)} {I : β → List Known}
    {final : γ → List Known} {b : β}
    (hround : ∀ b, D.Keeps env (I b ++ known) (round b) (rounds I final))
    (hb : I b ⊆ known) : D.Keeps env known (Parser.loop round b) final := by
  intro s hs
  unfold Parser.loop
  generalize s.cursor.rest.length + 1 = fuel
  have hloop : ∀ b, D.Keeps env (I b ++ known) (Parser.loopN round fuel b) final := by
    induction fuel with
    | zero => exact fun _ => exhausted
    | succ fuel ih =>
      intro b
      unfold Parser.loopN
      apply (hround b).bind fun r => ?_
      cases r with
      | more next =>
        apply (ih next).mono _ fun _ => List.Subset.refl _
        apply List.append_subset.mpr
        exact ⟨List.subset_append_left _ _, List.subset_append_of_subset_right _
          (List.subset_append_right _ _)⟩
      | done result =>
        apply pure
        exact List.subset_append_left _ _
  apply hloop b s
  exact knows_append.mpr ⟨hs.subset hb, hs⟩

/-! ## Lists -/

theorem delimited {element : Parser NodeId} {r : Role} {delimiter : TokenKind}
    (h : D.Yields env [] element r) :
    D.Keeps env known (Parser.delimited element delimiter) (all r) := by
  unfold Parser.delimited
  apply h.more.bind fun first => ?_
  apply loop (I := all r) (b := [first]) (fun items => ?_) (List.subset_append_left _ _)
  apply check.skip fun more => ?_
  apply cond
  · intro _
    apply consume.skip fun _ => ?_
    apply h.more.bind fun item => ?_
    apply pure
    simp [rounds, all, List.subset_def]
    grind
  · intro _
    exact pure (List.subset_append_left _ _)

theorem parenthesized {opening closing : TokenKind} (hp : D.Keeps env known p after) :
    D.Keeps env known (Parser.parenthesized opening closing p) after := by
  unfold Parser.parenthesized
  apply expect.skip fun _ => ?_
  apply hp.bind fun a => ?_
  apply expect.skip fun _ => ?_
  exact pure (List.subset_append_left _ _)

theorem parenthesizedList {opening closing : TokenKind} {element : Parser NodeId} {r : Role}
    {delimiter : TokenKind} (h : D.Yields env [] element r) :
    D.Keeps env known (Parser.parenthesizedList opening closing element delimiter) (all r) := by
  unfold Parser.parenthesizedList
  apply expect.skip fun _ => ?_
  apply check.skip fun closes => ?_
  apply cond
  · intro _
    apply consume.skip fun _ => ?_
    exact pure (List.nil_subset _)
  · intro _
    apply (delimited h).bind fun items => ?_
    apply expect.skip fun _ => ?_
    exact pure (List.subset_append_left _ _)

/-! ## Choices -/

theorem attemptFrom {propagate : Bool} {rules : List Rule} {last : Option Diagnostic} {r : Role}
    (h : ∀ rule ∈ rules, D.Yields env [] rule.parse r) :
    D.Keeps env known (Parser.attemptFrom propagate rules last)
      (fun o => o.elim [] fun id => [.has id r]) := by
  induction rules generalizing last with
  | nil =>
    cases last with
    | none => exact pure (List.nil_subset _)
    | some d =>
      cases propagate with
      | true => exact fail
      | false => exact pure (List.nil_subset _)
  | cons rule rules ih =>
    intro s hs
    obtain ⟨hrel, hok⟩ := h rule List.mem_cons_self s knows_nil
    have hrest := fun rule' h' => h rule' (List.mem_cons_of_mem rule h')
    unfold Parser.attemptFrom
    dsimp only
    cases hrun : rule.parse env s with
    | mk result s' =>
      rw [hrun] at hrel hok
      match result with
      | .ok id =>
        refine ⟨hrel, fun o ho => ?_⟩
        cases ho
        exact hok id rfl
      | .error (.failed d) =>
        have hback := Lawful.back hrel
        obtain ⟨hrel', hok'⟩ := ih hrest (ParserState.mk s.cursor s.phase
          { s'.work with events := s'.work.events.push (.mismatched rule.name d) }) (hs.later hback)
        exact ⟨Lawful.trans hback hrel', hok'⟩
      | .error .exhausted => exact ⟨hrel, fun _ ho => nomatch ho⟩

theorem dispatch {rules : List Rule} {expected : String} {r : Role}
    (h : ∀ rule ∈ rules, D.Yields env [] rule.parse r) :
    D.Yields env known (Parser.dispatch rules expected) r := by
  unfold Parser.dispatch
  apply remaining.skip fun tokens => ?_
  have hsub : ∀ rule ∈ rules.filter (·.accepts tokens), D.Yields env [] rule.parse r :=
    fun rule hrule => h rule (List.mem_of_mem_filter hrule)
  generalize rules.filter (·.accepts tokens) = candidates at hsub
  cases candidates with
  | nil => exact peek.skip fun _ => fail
  | cons rule rest =>
    apply (attemptFrom hsub).bind fun o => ?_
    cases o with
    | none => exact fail
    | some id => exact pure (List.subset_append_left _ _)

theorem choice {read : Production → Parser NodeId} {options : List Production}
    {expected : String} {r : Role} (h : ∀ q ∈ options, D.Yields env [] (read q) r) :
    D.Yields env known (Parser.choice read options expected) r := by
  apply dispatch fun rule hrule => ?_
  obtain ⟨q, hq, rfl⟩ := List.mem_map.mp hrule
  exact h q hq

/-- Rules until no token remains. -/
theorem execute {rules : List Rule} {r : Role} (h : ∀ rule ∈ rules, D.Yields env [] rule.parse r) :
    D.Keeps env known (Parser.execute rules) (all r) := by
  unfold Parser.execute
  apply loop (I := all r) (fun nodes => ?_) (List.nil_subset _)
  unfold Parser.executeRound
  apply remaining.skip fun tokens => ?_
  cases tokens with
  | nil => exact pure (List.subset_append_left _ _)
  | cons t tokens =>
    have hsub : ∀ rule ∈ rules.filter (·.accepts (t :: tokens)), D.Yields env [] rule.parse r :=
      fun rule hrule => h rule (List.mem_of_mem_filter hrule)
    generalize rules.filter (·.accepts (t :: tokens)) = matching at hsub
    rcases matching with _ | ⟨rule, _ | ⟨rule', others⟩⟩
    rotate_left
    · apply note.skip fun _ => ?_
      apply (hsub rule List.mem_cons_self).more.bind fun id => ?_
      apply pure
      simp [rounds, all, List.subset_def]
      grind
    -- No rule or several rules apply: the token is passed over, or the run fails.
    all_goals
      apply environment.skip fun e => ?_
      apply cond
      · intro _
        apply consume.skip fun skipped => ?_
        apply note.skip fun _ => ?_
        exact pure (List.subset_append_left _ _)
      · intro _
        apply cond
        · exact fun _ => fail
        · exact fun _ => note.skip fun _ => fail

end Keeps

end Discipline

end ApiSyntax
