/-
  ApiSyntax/Proofs/Grammar/Ledger.lean --- productions account for their annotations.

  A production that succeeds accounts for what it added: its annotations are below the node
  that it answers, and the operators are those before it with the effect of each annotation
  had, in the order in which they were made.  Productions without annotations add nothing,
  also when they fail.

  Where an annotation may stand at most one alternative applies.  So nothing is left over
  from an alternative that was given up: when the one that applies fails, the production
  that chose it fails.
-/
import ApiSyntax.Proofs.Grammar.Triggers
import ApiSyntax.Proofs.Grammar.WellKinded
import ApiSyntax.Proofs.Operators.Effects
import ApiSyntax.Proofs.Parser.Agreement

set_option autoImplicit false

namespace ApiSyntax

open Arena OperatorTable

/-! ## What is added -/

/-- The annotations `ids` are new, and the operators are those before with their effects had. -/
structure Adds (x y : Stage) (ids : List NodeId) : Prop where
  follows : x.arena.Follows y.arena
  annotations : y.arena.annotations = x.arena.annotations ++ ids
  operators : ∃ calls, List.Forall₂ y.arena.Effect ids calls ∧
    calls.foldlM (fun t c => c.run t) x.operators = .ok y.operators

/-- Annotations were added, and each is below one of the nodes `tops`. -/
def Accounted (x y : Stage) (tops : List NodeId) : Prop :=
  ∃ ids, Adds x y ids ∧ ∀ id ∈ ids, ∃ top ∈ tops, y.arena.Above top id

variable {x y z : Stage} {ids ids' tops tops' : List NodeId} {e : Expr} {token : Token}

namespace Adds

theorem trans (h : Adds x y ids) (h' : Adds y z ids') : Adds x z (ids ++ ids') where
  follows := h.follows.trans h'.follows
  annotations := by rw [h'.annotations, h.annotations, List.append_assoc]
  operators := by
    obtain ⟨calls, heffects, hcalls⟩ := h.operators
    obtain ⟨calls', heffects', hcalls'⟩ := h'.operators
    refine ⟨calls ++ calls', ?_, ?_⟩
    · exact List.rel_append (heffects.imp fun _ _ => Effect.later h'.follows) heffects'
    · rw [List.foldlM_append, hcalls]
      exact hcalls'

/-- Nothing is added by a step without new annotations that keeps the operators. -/
theorem nothing (hfollows : x.arena.Follows y.arena)
    (hannotations : y.arena.annotations = x.arena.annotations)
    (hoperators : y.operators = x.operators) : Adds x y [] where
  follows := hfollows
  annotations := by rw [hannotations, List.append_nil]
  operators := ⟨[], .nil, by rw [hoperators]; rfl⟩

/-- A quiet step adds nothing. -/
theorem of_quiet (h : (Discipline.quiet .builtin).Rel x y)
    (hx : x.arena.WellKinded .builtin x.operators) : Adds x y [] := by
  obtain ⟨hoperators, hstep⟩ := h
  exact nothing hstep.follows (hstep.follows.annotations_eq (hstep.annotations hx)) hoperators

/-- A node is made that is no annotation. -/
theorem push (h : Adds x y ids) (token : Token) (hkind : e.kind ≠ .annotationCall) :
    Adds x { y with arena := y.arena.push token e } ids := by
  have hpush : Adds y { y with arena := y.arena.push token e } [] :=
    nothing (.push y.arena token e) (by simp [annotations_push, hkind]) rfl
  simpa using h.trans hpush

/-- An annotation is made, and its effect is had. -/
theorem annotated {name : String} {params : List NodeId} {call : Call}
    (harena : y.arena = x.arena.push token (.annotationCall name params))
    (heffect : y.arena.Effect x.arena.next call) (hcall : call.run x.operators = .ok y.operators) :
    Adds x y [x.arena.next] where
  follows := by
    rw [harena]
    exact .push x.arena token _
  annotations := by
    rw [harena]
    exact annotations_push x.arena token _
  operators := by
    refine ⟨[call], .cons heffect .nil, ?_⟩
    rw [List.foldlM_cons, hcall]
    rfl

end Adds

namespace Accounted

theorem refl (x : Stage) : Accounted x x [] :=
  ⟨[], .nothing (.refl _) rfl rfl, fun _ h => absurd h List.not_mem_nil⟩

theorem trans (h : Accounted x y tops) (h' : Accounted y z tops') :
    Accounted x z (tops ++ tops') := by
  obtain ⟨ids, hadds, habove⟩ := h
  obtain ⟨ids', hadds', habove'⟩ := h'
  refine ⟨ids ++ ids', hadds.trans hadds', fun id hid => ?_⟩
  rcases List.mem_append.mp hid with hid | hid
  · obtain ⟨top, htop, hid⟩ := habove id hid
    exact ⟨top, List.mem_append_left _ htop, hid.later hadds'.follows⟩
  · obtain ⟨top, htop, hid⟩ := habove' id hid
    exact ⟨top, List.mem_append_right _ htop, hid⟩

theorem mono (h : Accounted x y tops) (hsub : tops ⊆ tops') : Accounted x y tops' := by
  obtain ⟨ids, hadds, habove⟩ := h
  refine ⟨ids, hadds, fun id hid => ?_⟩
  obtain ⟨top, htop, hid⟩ := habove id hid
  exact ⟨top, hsub htop, hid⟩

theorem quietly (h : Accounted x y tops) (hquiet : (Discipline.quiet .builtin).Rel y z)
    (hy : y.arena.WellKinded .builtin y.operators) : Accounted x z tops := by
  have hnothing : Accounted y z [] :=
    ⟨[], .of_quiet hquiet hy, fun _ h => absurd h List.not_mem_nil⟩
  simpa using h.trans hnothing

/-- A node is made over the nodes that all is below. -/
theorem push (h : Accounted x y tops) (token : Token) (hkind : e.kind ≠ .annotationCall)
    (hbinary : e.kind ≠ .binary) (hslots : tops ⊆ e.children) :
    Accounted x { y with arena := y.arena.push token e } [y.arena.next] := by
  obtain ⟨ids, hadds, habove⟩ := h
  refine ⟨ids, hadds.push token hkind, fun id hid => ?_⟩
  obtain ⟨top, htop, hid⟩ := habove id hid
  refine ⟨y.arena.next, List.mem_cons_self, ?_⟩
  exact (hid.later (.push y.arena token e)).of_slot (expr_push_next y.arena token e) hbinary
    (hslots htop)

end Accounted

/-! ## Runs -/

/-- The arena that a state has built is well-kinded. -/
def ParserState.WellKinded (s : ParserState) : Prop :=
  s.work.arena.WellKinded .builtin s.work.operators

/-- All that was added since `x` is accounted for, and the arena is well-kinded. -/
structure Booked (x : Stage) (s : ParserState) (tops : List NodeId) : Prop where
  wellKinded : s.WellKinded
  accounted : Accounted x s.stage tops

namespace Booked

open Discipline

variable {s s' : ParserState} {α : Type}

theorem start (h : s.WellKinded) : Booked s.stage s [] := ⟨h, .refl _⟩

theorem quietly (h : Booked x s tops) (hrel : (quiet .builtin).Rel s.stage s'.stage) :
    Booked x s' tops where
  wellKinded := by
    have hkept := hrel.2.wellKinded h.wellKinded
    have hoperators : s'.work.operators = s.work.operators := hrel.1
    rw [ParserState.WellKinded, hoperators]
    exact hkept
  accounted := h.accounted.quietly hrel h.wellKinded

/-- The phase does not matter. -/
theorem inPhase (h : Booked x s tops) (phase : Phase) : Booked x { s with phase := phase } tops :=
  ⟨h.wellKinded, h.accounted⟩

/-- A step of a parser that is quiet. -/
theorem quiet {p : Parser α} {after : α → List Known} {r : Except Stop α}
    (h : Booked x s tops) (hp : (quiet .builtin).Keeps .standard [] p after)
    (hrun : p .standard s = (r, s')) : Booked x s' tops :=
  h.quietly (hp.rel_of_run hrun)

/-- A node is made over the nodes that all is below. -/
theorem alloc {id : NodeId} (h : Booked x s tops)
    (hkind : e.kind ≠ .annotationCall) (hbinary : e.kind ≠ .binary) (hslots : tops ⊆ e.children)
    (hrun : Parser.alloc token e .standard s = (.ok id, s')) : Accounted x s'.stage [id] := by
  cases hrun
  exact h.accounted.push token hkind hbinary hslots

end Booked

/-- A parser that accounts for what it adds. -/
def Accounts (p : Parser NodeId) : Prop :=
  ∀ s id s', s.WellKinded → p .standard s = (.ok id, s') → Accounted s.stage s'.stage [id]

namespace Grammar

open ApiSyntax.Discipline ApiSyntax.Parser

/-- What is relied on of nested productions. -/
structure Honest (read : Production → Parser NodeId) : Prop where
  quiet : ∀ p : Production, p.isQuiet → (quiet .builtin).Yields .standard [] (read p) p.role
  fitting : ∀ p, (fitting .builtin).Yields .standard [] (read p) p.role
  accounts : ∀ p, Accounts (read p)
  /-- Where a method fails all is quiet, or a brace is behind every signature that is read there. -/
  method : ∀ s d s', read .method .standard s = (.error d, s') →
    (Discipline.quiet .builtin).Rel s.stage s'.stage ∨
      ∀ t id t', s.cursor.rest = t.cursor.rest → read .signature .standard t = (.ok id, t') →
        t'.cursor.check .lbrace = true

variable {read : Production → Parser NodeId} {s s' : ParserState} {id : NodeId} {p : Production}

theorem Honest.booked (h : Honest read) (hb : Booked x s tops)
    (hrun : read p .standard s = (.ok id, s')) : Booked x s' (tops ++ [id]) where
  wellKinded := ((h.fitting p).rel_of_run hrun).2 hb.wellKinded
  accounted := hb.accounted.trans (h.accounts p s id s' hb.wellKinded hrun)

/-! ## Statements and blocks -/

theorem method_accounts (h : Honest read) : Accounts (method read) := by
  intro s id s' hs hrun
  obtain ⟨start, s₁, hstart, hrun⟩ := bind_eq_ok.mp hrun
  obtain ⟨head, s₂, hhead, hrun⟩ := bind_eq_ok.mp hrun
  obtain ⟨body, s₃, hbody, hrun⟩ := bind_eq_ok.mp hrun
  have hb := h.booked (h.booked ((Booked.start hs).quiet Keeps.startToken hstart) hhead) hbody
  exact hb.alloc (by nofun) (by nofun) (by simp [Expr.children]) hrun

theorem deferred_accounts (h : Honest read) : Accounts (deferred read) := by
  intro s id s' hs hrun
  obtain ⟨keyword, s₁, hkeyword, hrun⟩ := bind_eq_ok.mp hrun
  obtain ⟨block, s₂, hblock, hrun⟩ := bind_eq_ok.mp hrun
  obtain ⟨e, s₃, he, hrun⟩ := bind_eq_ok.mp hrun
  have hb := (h.booked ((Booked.start hs).quiet Keeps.expectKeyword hkeyword) hblock).quiet
    (Keeps.question fun _ => rfl) he
  split at hrun
  · obtain ⟨n, s₄, -, hfail⟩ := bind_eq_ok.mp hrun
    cases hfail
  · exact hb.alloc (by nofun) (by nofun) (by simp [Expr.children]) hrun

/-- What is chosen of productions that are apart is accounted for. -/
theorem Honest.chosen (h : Honest read) {ps : List Production} {expected : String}
    (hps : ps.Pairwise Production.Apart) (hb : Booked x s tops)
    (hrun : choice read ps expected .standard s = (.ok id, s')) : Booked x s' (tops ++ [id]) := by
  have hone : ((ps.map (Production.ruleOf read)).filter (·.accepts s.cursor.rest)).length ≤ 1 := by
    rw [List.filter_map, List.length_map]
    exact Production.length_applies_le hps s.cursor.rest
  obtain ⟨rule, hrule, hrun⟩ := dispatch_eq_ok_of_one hone hrun
  obtain ⟨p, -, rfl⟩ := List.mem_map.mp (List.mem_of_mem_filter hrule)
  exact h.booked hb hrun

theorem blockRound_books (h : Honest read) {opened : Span} {b : BlockSoFar}
    {r : Round BlockSoFar BlockSoFar} (hb : Booked x s b.body)
    (hrun : blockRound read opened b .standard s = (.ok r, s')) :
    r.Leaves (fun b s => Booked x s b.body) (fun b s => Booked x s b.body) s' := by
  unfold blockRound at hrun
  rw [remaining_bind] at hrun
  cases htoken : s.cursor.rest.head? with
  | none =>
    rw [htoken] at hrun
    cases hrun
  | some t =>
    simp only [htoken] at hrun
    split at hrun
    · obtain ⟨closing, s₁, hconsume, hrest⟩ := bind_eq_ok.mp hrun
      cases hrest
      exact hb.quiet Keeps.consume hconsume
    split at hrun
    · cases hrun
    split at hrun
    · obtain ⟨ret, s₁, hret, hrest⟩ := bind_eq_ok.mp hrun
      cases hrest
      exact hb.quiet (h.quiet .returned rfl) hret
    · obtain ⟨id, s₁, hid, hrest⟩ := bind_eq_ok.mp hrun
      cases hrest
      exact h.chosen pairwise_statements hb hid

theorem block_accounts (h : Honest read) : Accounts (block read) := by
  intro s id s' hs hrun
  obtain ⟨opening, s₁, hopening, hrun⟩ := bind_eq_ok.mp hrun
  obtain ⟨b, s₂, hphase, hrun⟩ := bind_eq_ok.mp hrun
  obtain ⟨s₃, hloop, rfl⟩ := inPhase_eq_ok hphase
  have hstart : Booked s.stage s₁ [] := (Booked.start hs).quiet Keeps.expect hopening
  have hbody : Booked s.stage s₃ b.body :=
    loop_induct (fun b t => Booked s.stage t b.body) (fun b t => Booked s.stage t b.body)
      (fun _ _ _ _ hb hround => blockRound_books h hb hround) (hstart.inPhase _) hloop
  exact (hbody.inPhase _).alloc (by nofun) (by nofun) (List.subset_append_left _ _) hrun

/-! ## APIs -/

theorem apiRound_books (h : Honest read) {opened : Span} {body : List NodeId}
    {r : Round (List NodeId) (List NodeId)} (hb : Booked x s body)
    (hrun : apiRound read opened body .standard s = (.ok r, s')) :
    r.Leaves (fun body s => Booked x s body) (fun body s => Booked x s body) s' := by
  unfold apiRound at hrun
  rw [remaining_bind] at hrun
  cases htoken : s.cursor.rest.head? with
  | none =>
    rw [htoken] at hrun
    cases hrun
  | some t =>
    simp only [htoken] at hrun
    split at hrun
    · obtain ⟨closing, s₁, hconsume, hrest⟩ := bind_eq_ok.mp hrun
      cases hrest
      exact hb.quiet Keeps.consume hconsume
    · obtain ⟨id, s₁, hid, hrest⟩ := bind_eq_ok.mp hrun
      cases hrest
      exact h.chosen pairwise_declarations hb hid

theorem api_accounts (h : Honest read) : Accounts (api read) := by
  intro s id s' hs hrun
  obtain ⟨keyword, s₁, hkeyword, hrun⟩ := bind_eq_ok.mp hrun
  obtain ⟨name, s₂, hname, hrun⟩ := bind_eq_ok.mp hrun
  obtain ⟨inside, s₃, hinside, hrun⟩ := bind_eq_ok.mp hrun
  obtain ⟨others, s₄, hothers, hrun⟩ := bind_eq_ok.mp hrun
  obtain ⟨opening, s₅, hopening, hrun⟩ := bind_eq_ok.mp hrun
  obtain ⟨body, s₆, hphase, hrun⟩ := bind_eq_ok.mp hrun
  obtain ⟨s₇, hloop, rfl⟩ := inPhase_eq_ok hphase
  have hhead : Booked s.stage s₄ [] :=
    ((((Booked.start hs).quiet Keeps.expectKeyword hkeyword).quiet namedType_yields hname).quiet
      (Keeps.attempt (h.quiet .within rfl)) hinside).quiet
      (Keeps.attempt (h.quiet .withApis rfl)) hothers
  have hstart : Booked s.stage s₅ [] := hhead.quiet Keeps.expect hopening
  have hbody : Booked s.stage s₇ body :=
    loop_induct (fun body t => Booked s.stage t body) (fun body t => Booked s.stage t body)
      (fun _ _ _ _ hb hround => apiRound_books h hb hround) (hstart.inPhase _) hloop
  refine (hbody.inPhase _).alloc (by nofun) (by nofun) ?_ hrun
  intro top htop
  simp [Expr.children, htop]

/-! ## Programs -/

theorem executeRound_books (h : Honest read) {nodes : List NodeId}
    {r : Round (List NodeId) (List NodeId)} (hb : Booked x s nodes)
    (hrun : executeRound ([.annotationCall, .api].map (Production.ruleOf read)) nodes .standard s =
      (.ok r, s')) :
    r.Leaves (fun nodes s => Booked x s nodes) (fun nodes s => Booked x s nodes) s' := by
  unfold executeRound at hrun
  rw [remaining_bind] at hrun
  cases htokens : s.cursor.rest with
  | nil =>
    rw [htokens] at hrun
    cases hrun
    exact hb
  | cons t rest =>
    simp only [htokens] at hrun
    have hsub : ∀ rule ∈ ([.annotationCall, .api].map (Production.ruleOf read)).filter
        (·.accepts (t :: rest)), ∃ p, rule = Production.ruleOf read p := by
      intro rule hrule
      obtain ⟨p, -, rfl⟩ := List.mem_map.mp (List.mem_of_mem_filter hrule)
      exact ⟨p, rfl⟩
    generalize ([.annotationCall, .api].map (Production.ruleOf read)).filter
      (·.accepts (t :: rest)) = matching at hrun hsub
    match matching, hrun, hsub with
    | [rule], hrun, hsub =>
      obtain ⟨p, rfl⟩ := hsub rule List.mem_cons_self
      obtain ⟨_, s₁, hnote, hrun⟩ := bind_eq_ok.mp hrun
      obtain ⟨id, s₂, hid, hrest⟩ := bind_eq_ok.mp hrun
      cases hrest
      exact h.booked (hb.quiet Keeps.note hnote) hid
    | [], hrun, _ => cases hrun
    | _ :: _ :: _, hrun, _ => cases hrun

/-- Each handle is told apart as one or the other. -/
theorem mem_separate {a : Arena} {ids : List NodeId} {parts : List NodeId × List NodeId}
    (h : separate a ids = .ok parts) : ids ⊆ parts.1 ++ parts.2 := by
  induction ids generalizing parts with
  | nil => exact List.nil_subset _
  | cons id ids ih =>
    obtain ⟨e, rest, -, hrest, hparts⟩ := separate_cons h
    have hids := ih hrest
    obtain ⟨-, rfl⟩ | ⟨-, rfl⟩ := hparts
    · exact List.cons_subset_cons id hids
    · exact List.cons_subset.mpr ⟨by simp, fun other hother => by
        have hmem := List.mem_append.mp (hids hother)
        simp only [List.mem_append, List.mem_cons]
        exact hmem.imp_right .inr⟩

/-- A tag changes no contents and no operators. -/
theorem tag_adds {id : NodeId} {tag : Tag} {new : Bool} {w w' : Workspace} {rest rest' : List Token}
    (hrun : Workspace.tag id tag w = (.ok new, w')) : Adds (w.stage rest) (w'.stage rest') [] := by
  cases htag : w.arena.tag id tag with
  | error d =>
    simp only [Workspace.tag, Workspace.edit, Workspace.onArena, htag] at hrun
    cases hrun
  | ok answer =>
    simp only [Workspace.tag, Workspace.edit, Workspace.onArena, htag] at hrun
    cases hrun
    have hfollows : w.arena.Follows answer.2 := .tag htag
    refine .nothing hfollows (hfollows.annotations_eq fun id e he _ => ?_) rfl
    exact expr_of_tag htag id ▸ he

theorem tagAll_adds {program : NodeId} {ids : List NodeId} {env : ParserEnv}
    (hrun : tagAll program ids env s = (.ok (), s')) : Adds s.stage s'.stage [] := by
  induction ids generalizing s with
  | nil =>
    cases hrun
    exact .nothing (.refl _) rfl rfl
  | cons id ids ih =>
    unfold tagAll at hrun
    obtain ⟨e, s₁, he, hrun⟩ := bind_eq_ok.mp hrun
    obtain ⟨-, hsame⟩ := atArena_eq_ok he
    rw [hsame] at hrun
    split at hrun
    · obtain ⟨new, s₂, htag, hrest⟩ := bind_eq_ok.mp hrun
      have hstep : Adds s.stage s₂.stage [] :=
        tag_adds (Action.of_mapError_eq_ok (building_eq_ok htag))
      exact hstep.trans (ih hrest)
    · exact ih hrun

theorem program_accounts (h : Honest read) : Accounts (program read) := by
  intro s id s' hs hrun
  obtain ⟨start, s₁, hstart, hrun⟩ := bind_eq_ok.mp hrun
  obtain ⟨nodes, s₂, hphase, hrun⟩ := bind_eq_ok.mp hrun
  obtain ⟨s₃, hloop, hsame⟩ := inPhase_eq_ok hphase
  obtain ⟨parts, s₄, hparts, hrun⟩ := bind_eq_ok.mp hrun
  obtain ⟨hparts, hsame'⟩ := atArena_eq_ok hparts
  obtain ⟨node, s₅, halloc, hrun⟩ := bind_eq_ok.mp hrun
  obtain ⟨_, s₆, htags, hrest⟩ := bind_eq_ok.mp hrun
  cases hrest
  have hfirst := (Booked.start hs).quiet Keeps.startToken hstart
  have hnodes : Booked s.stage s₃ nodes :=
    loop_induct (fun nodes t => Booked s.stage t nodes) (fun nodes t => Booked s.stage t nodes)
      (fun _ _ _ _ hb hround => executeRound_books h hb hround) (hfirst.inPhase _) hloop
  rw [hsame', hsame] at halloc
  have hslots : nodes ⊆ (Expr.program parts.2 parts.1).children := mem_separate hparts
  have hmade := (hnodes.inPhase _).alloc (by nofun) (by nofun) hslots halloc
  have htagged : Accounted s₅.stage s'.stage [] :=
    ⟨[], tagAll_adds htags, fun _ h => absurd h List.not_mem_nil⟩
  exact hmade.trans htagged

end Grammar

end ApiSyntax
