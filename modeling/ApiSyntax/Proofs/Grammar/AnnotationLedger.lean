/-
  ApiSyntax/Proofs/Grammar/AnnotationLedger.lean --- the operators are what the annotations say.

  The parameters of an annotation are the one place where an alternative is given up that may
  have run annotations: a method is tried ahead of its signature.  A method that fails behind
  its signature fails in a block.  Then the signature is read again and ends at the same
  place, in front of the brace, so the list of parameters fails as well.  A list that is read
  to its end and holds signatures only was read quietly.

  Main statement: behind a text that is accepted as a program the operators are those of the
  language with the effect of each annotation had, in the order of the annotations, and all
  annotations are in the tree of the program (`ofSource_operators`).
-/
import ApiSyntax.Proofs.Grammar.Ledger

set_option autoImplicit false

namespace ApiSyntax

open Arena OperatorTable

namespace Grammar

open ApiSyntax.Discipline ApiSyntax.Parser

variable {x y : Stage} {ids ids' : List NodeId} {token : Token}
  {read read' : Production → Parser NodeId} {s s' : ParserState} {id : NodeId}

/-! ## Parameters -/

/-- The node is of another kind than a signature. -/
def NoSignature (a : Arena) (id : NodeId) : Prop := ∃ kind, a.kind id = .ok kind ∧ kind ≠ .signature

theorem noSignature_of_is {role : Role} {a : Arena} (h : ∃ e, a.expr id = .ok e ∧ role.admits e)
    (hrole : .signature ∉ role.kinds) : NoSignature a id := by
  obtain ⟨e, he, hadmits⟩ := h
  refine ⟨e.kind, kind_eq_ok.mpr ⟨e, he, rfl⟩, ?_⟩
  intro hkind
  exact hrole (hkind ▸ Role.kind_of_admits hadmits)

/-- All was quiet since `x`, or one of the nodes is no signature, or a brace stands ahead. -/
def Settled (x : Stage) (s : ParserState) (ids : List NodeId) : Prop :=
  (quiet .builtin).Rel x s.stage ∨ (∃ id ∈ ids, NoSignature s.work.arena id) ∨
    s.cursor.check .lbrace = true

/-- What is behind an expression that was tried alone. -/
theorem expression_settled (h : Honest read) {tokens : List Token} {last : Option Diagnostic}
    (hrun : attemptFrom true (([.expression].filter (applies tokens)).map (Production.ruleOf read))
      last .standard s = (.ok (some id), s')) :
    (quiet .builtin).Rel s.stage s'.stage ∧ NoSignature s'.work.arena id := by
  rw [List.filter_cons] at hrun
  split at hrun
  · obtain hrun | ⟨d, s₁, -, hrest⟩ := attemptFrom_cons hrun
    · have hquiet := h.quiet .expression rfl
      have his := hquiet.knows_of_run hrun _ List.mem_cons_self
      exact ⟨hquiet.rel_of_run hrun, noSignature_of_is his (by decide)⟩
    · exact absurd hrest attemptFrom_nil
  · exact absurd hrun attemptFrom_nil

/-- Methods and signatures apply at the same places. -/
theorem filter_parameterKinds (tokens : List Token) :
    parameterKinds.filter (applies tokens) =
      (if applies tokens .signature then [.method, .signature] else []) ++
        [.expression].filter (applies tokens) := by
  have hsame : applies tokens .method = applies tokens .signature := rfl
  cases hopen : applies tokens .signature <;>
    simp [parameterKinds, List.filter_cons, hsame, hopen]

/-- What is behind a parameter: where a method was given up behind its signature, that is read
again and the brace is ahead. -/
theorem parameter_settled (h : Honest read) (hrun : parameter read .standard s = (.ok id, s')) :
    Settled s.stage s' [id] := by
  replace hrun := dispatch_eq_ok hrun
  have hfilter : ((parameterKinds.map (Production.ruleOf read)).filter
      (·.accepts s.cursor.rest)) = (parameterKinds.filter (applies s.cursor.rest)).map
        (Production.ruleOf read) := List.filter_map
  rw [show [Production.method, .signature, .expression] = parameterKinds from rfl, hfilter,
    filter_parameterKinds] at hrun
  split at hrun
  · obtain hmethod | ⟨d, s₁, hmethod, hrun⟩ := attemptFrom_cons hrun
    · have his := (h.fitting .method).knows_of_run hmethod _ List.mem_cons_self
      exact .inr (.inl ⟨id, List.mem_cons_self, noSignature_of_is his (by decide)⟩)
    obtain hsignature | ⟨d', s₂, hsignature, hrun⟩ := attemptFrom_cons hrun
    · let again := retried s s₁ (.mismatched Production.method.name d)
      have hagain : read .signature .standard again = (.ok id, s') := hsignature
      obtain hquiet | hbrace := h.method s _ s₁ hmethod
      · have hrel := (h.quiet .signature rfl).rel_of_run hagain
        have hback : (quiet .builtin).Rel s.stage again.stage := Lawful.back hquiet
        exact .inl (Lawful.trans hback hrel)
      · exact .inr (.inr (hbrace again id s' rfl hagain))
    · exact .inr (.inl ⟨id, List.mem_cons_self, (expression_settled h hrun).2⟩)
  · exact .inl (expression_settled h hrun).1

theorem NoSignature.later {a b : Arena} (hab : a.Follows b) (h : NoSignature a id) :
    NoSignature b id := by
  obtain ⟨kind, hkind, hne⟩ := h
  exact ⟨kind, hab.kind hkind, hne⟩

theorem parameter_follows (h : Honest read) (hrun : parameter read .standard s = (.ok id, s')) :
    s.work.arena.Follows s'.work.arena := by
  have hparameter : (Discipline.fitting .builtin).Yields .standard [] (parameter read) .anything := by
    apply Keeps.choice fun p hp => ?_
    apply (h.fitting p).le
    revert p
    decide
  exact (hparameter.rel_of_run hrun).1.1

namespace Settled

theorem mono (h : Settled x s ids) (hsub : ids ⊆ ids') : Settled x s ids' := by
  obtain hquiet | ⟨id, hid, hno⟩ | hbrace := h
  · exact .inl hquiet
  · exact .inr (.inl ⟨id, hsub hid, hno⟩)
  · exact .inr (.inr hbrace)

/-- Seen from further back, when all was quiet before. -/
theorem behind (hquiet : (quiet .builtin).Rel x y) (h : Settled y s ids) : Settled x s ids := by
  obtain hquiet' | hrest := h
  · exact .inl (Lawful.trans hquiet hquiet')
  · exact .inr hrest

/-- Another parameter is read where no brace stands ahead. -/
theorem snoc (h : Honest read) {s₁ : ParserState} (hs : Settled x s ids)
    (hbrace : s.cursor.check .lbrace = false) (hquiet : (quiet .builtin).Rel s.stage s₁.stage)
    (hrun : parameter read .standard s₁ = (.ok id, s')) : Settled x s' (ids ++ [id]) := by
  obtain hbefore | ⟨other, hother, hno⟩ | hopen := hs
  · have hnext := (parameter_settled h hrun).behind (Lawful.trans hbefore hquiet)
    exact hnext.mono (List.subset_append_right _ _)
  · have hfollows := hquiet.2.follows.trans (parameter_follows h hrun)
    exact .inr (.inl ⟨other, List.mem_append_left _ hother, hno.later hfollows⟩)
  · rw [hbrace] at hopen
    cases hopen

end Settled

/-- Parameters are separated by commas, so only the last one may have a brace behind it. -/
theorem delimited_settled (h : Honest read) {ids : List NodeId}
    (hrun : delimited (parameter read) .comma .standard s = (.ok ids, s')) :
    Settled s.stage s' ids := by
  obtain ⟨first, s₁, hfirst, hloop⟩ := bind_eq_ok.mp hrun
  apply loop_induct (fun items t => Settled s.stage t items) (fun items t => Settled s.stage t items)
    _ (parameter_settled h hfirst) hloop
  intro items t r t' hitems hround
  rw [check_bind] at hround
  split at hround
  · next hcomma =>
    obtain ⟨comma, t₁, hconsume, hround⟩ := bind_eq_ok.mp hround
    obtain ⟨item, t₂, hitem, hrest⟩ := bind_eq_ok.mp hround
    cases hrest
    exact hitems.snoc h (check_other hcomma (by decide))
      (Keeps.consume.rel_of_run (D := quiet .builtin) hconsume) hitem
  · cases hround
    exact hitems

/-- A list of parameters ends with a parenthesis, so no brace stands there.  It was read quietly, or
it holds something other than a signature. -/
theorem parameterList_settled (h : Honest read) {ids : List NodeId}
    (hrun : parameterList read .standard s = (.ok ids, s')) :
    (quiet .builtin).Rel s.stage s'.stage ∨ ∃ id ∈ ids, NoSignature s'.work.arena id := by
  obtain ⟨opening, s₁, hopening, hrun⟩ := bind_eq_ok.mp hrun
  have hopened := Keeps.expect.rel_of_run (D := quiet .builtin) hopening
  rw [check_bind] at hrun
  split at hrun
  · obtain ⟨closing, s₂, hconsume, hrest⟩ := bind_eq_ok.mp hrun
    cases hrest
    exact .inl (Lawful.trans hopened (Keeps.consume.rel_of_run hconsume))
  · obtain ⟨items, s₂, hitems, hrun⟩ := bind_eq_ok.mp hrun
    obtain ⟨closing, s₃, hclosing, hrest⟩ := bind_eq_ok.mp hrun
    cases hrest
    have hclosed := Keeps.expect.rel_of_run (D := quiet .builtin) hclosing
    obtain hquiet | ⟨id, hid, hno⟩ | hbrace := (delimited_settled h hitems).behind hopened
    · exact .inl (Lawful.trans hquiet hclosed)
    · exact .inr ⟨id, hid, hno.later hclosed.2.follows⟩
    · rw [check_other (check_of_expect hclosing) (by decide)] at hbrace
      cases hbrace

/-! ## Annotations -/

/-- What an annotation was given is read quietly. -/
theorem parameters_quiet (h : Honest read) {e : Extension} {name : String} {params : List NodeId}
    (hget : Registry.builtin.get? name = some e)
    (hrun : parameters read e .standard s = (.ok params, s'))
    (hkinds : params.mapM s'.work.arena.kind = .ok e.parameters) :
    (quiet .builtin).Rel s.stage s'.stage := by
  unfold parameters at hrun
  rw [check_bind] at hrun
  split at hrun
  · split at hrun
    · next hempty =>
      have hnonempty := Registry.parameters_ne_nil hget
      exact absurd (List.isEmpty_iff.mp hempty) hnonempty
    · obtain hquiet | ⟨id, hid, kind, hkind, hne⟩ := parameterList_settled h hrun
      · exact hquiet
      · obtain ⟨kind', hasked, hkind'⟩ := kind_of_mem hkinds hid
        rw [hkind] at hkind'
        cases hkind'
        exact absurd (Registry.parameters_builtin hget kind hasked) hne
  · cases hrun
    exact Lawful.refl _

theorem extensionAt_eq_ok {place : Span} {name : String} {e : Extension} {env : ParserEnv}
    (hrun : extensionAt place name env s = (.ok e, s')) :
    env.extensions.get? name = some e ∧ s' = s := by
  unfold extensionAt at hrun
  rw [env_bind] at hrun
  cases hget : env.extensions.get? name with
  | none =>
    rw [hget] at hrun
    cases hrun
  | some e' =>
    rw [hget] at hrun
    cases hrun
    exact ⟨rfl, rfl⟩

/-- The extension runs on what was built, with an event more on record. -/
theorem invoke_eq_ok {e : Extension} {name : String} {place : Span} {node : NodeId}
    {params : List NodeId} {env : ParserEnv}
    (hrun : invoke e name place node params env s = (.ok (), s')) :
    ∃ site events, e.invoke site params { s.work with events := events } = (.ok (), s'.work) := by
  obtain ⟨inside, s₁, hphase, hrun⟩ := bind_eq_ok.mp hrun
  obtain ⟨_, s₂, hnote, hrun⟩ := bind_eq_ok.mp hrun
  have hinvoke := Action.of_mapError_eq_ok (building_eq_ok hrun)
  have hsame : s₁ = s := (congrArg Prod.snd hphase).symm
  have hnoted : s₂.work = { s₁.work with
      events := s₁.work.events.push (.invoking name inside place) } :=
    (congrArg Prod.snd (building_eq_ok hnote)).symm
  rw [hnoted, hsame] at hinvoke
  exact ⟨_, _, hinvoke⟩

/-- An annotation is made in an arena where everything fits, so it has its effect. -/
theorem annotated_adds {e : Extension} {name : String} {place : Span} {params : List NodeId}
    {s₁ : ParserState} {node : NodeId}
    (hget : Registry.builtin.get? name = some e) (hs : s.WellKinded)
    (hkinds : params.mapM s.work.arena.kind = .ok e.parameters)
    (halloc : Parser.alloc token (.annotationCall name params) .standard s = (.ok node, s₁))
    (hinvoke : invoke e name place node params .standard s₁ = (.ok (), s')) :
    Accounted s.stage s'.stage [node] := by
  cases halloc
  obtain ⟨site, events, hrun⟩ := invoke_eq_ok hinvoke
  have hparams : ∀ id ∈ params, (Known.has id .anything).Holds s.work.arena s.work.operators := by
    intro id hid
    obtain ⟨kind, -, hkind⟩ := kind_of_mem hkinds hid
    obtain ⟨e', he', -⟩ := kind_eq_ok.mp hkind
    exact ⟨e', he', Role.admits_anything e'⟩
  have hfits := annotationCall_fits hget hkinds hparams
  have hnode := expr_push_next s.work.arena token (.annotationCall name params)
  obtain ⟨call, heffect, hcall, harena⟩ := Registry.effect_builtin hget (hs.push token hfits) hnode
    ((Follows.push _ _ _).kinds hkinds) hrun
  have hadds : Adds s.stage s'.stage [s.work.arena.next] :=
    .annotated harena (heffect.later (harena ▸ .refl _)) hcall
  refine ⟨_, hadds, fun id hid => ⟨id, hid, .refl⟩⟩

theorem annotationCall_accounts (h : Honest read) : Accounts (annotationCall read) := by
  intro s id s' hs hrun
  obtain ⟨sign, s₁, hsign, hrun⟩ := bind_eq_ok.mp hrun
  obtain ⟨name, s₂, hname, hrun⟩ := bind_eq_ok.mp hrun
  obtain ⟨e, s₃, he, hrun⟩ := bind_eq_ok.mp hrun
  obtain ⟨hget, hsame⟩ := extensionAt_eq_ok he
  obtain ⟨params, s₄, hparams, hrun⟩ := bind_eq_ok.mp hrun
  obtain ⟨found, s₅, hfound, hrun⟩ := bind_eq_ok.mp hrun
  obtain ⟨hkinds, hsame'⟩ := atArena_eq_ok hfound
  rw [hsame] at hparams
  rw [hsame'] at hrun
  split at hrun
  · next heq =>
    rw [heq] at hkinds
    obtain ⟨node, s₆, halloc, hrun⟩ := bind_eq_ok.mp hrun
    obtain ⟨_, s₇, hinvoke, hrest⟩ := bind_eq_ok.mp hrun
    cases hrest
    have hb := (((Booked.start hs).quiet Keeps.expect hsign).quiet extensionName_keeps hname).quietly
      (parameters_quiet h hget hparams hkinds)
    exact hb.accounted.trans (annotated_adds hget hb.wellKinded hkinds halloc hinvoke)
  · cases hrun

/-! ## Signatures read again -/

section Again

variable {env : ParserEnv}

theorem identifier_agrees : Agree env Whatever identifier identifier :=
  Agree.expectOr.bind fun _ _ _ => .alloc

theorem namedType_agrees : Agree env Whatever namedType namedType := by
  apply Agree.expectOr.bind fun _ _ _ => ?_
  exact Agree.bind (.silent (fun _ => rfl) fun _ => rfl) fun _ _ _ => .alloc

theorem type_agrees (h : Agree env Whatever (read .type) (read' .type)) :
    Agree env Whatever (type read) (type read') := by
  apply Agree.check fun c => ?_
  apply Agree.cond
  · apply Agree.consume.bind fun _ _ _ => ?_
    apply h.bind fun _ _ _ => ?_
    exact Agree.expectOr.bind fun _ _ _ => .alloc
  · exact namedType_agrees

theorem pair_agrees (h : Agree env Whatever (read .type) (read' .type)) :
    Agree env Whatever (pair read) (pair read') := by
  apply Agree.startToken fun _ _ => ?_
  apply identifier_agrees.bind fun _ _ _ => ?_
  exact h.bind fun _ _ _ => .alloc

/-- Where a signature ends depends on the tokens only. -/
theorem signature_agrees (htype : Agree env Whatever (read .type) (read' .type))
    (hpair : Agree env Whatever (read .pair) (read' .pair)) :
    Agree env Whatever (signature read) (signature read') := by
  have hreceiver : Agree env Whatever (receiver read) (receiver read') := by
    apply Agree.check fun c => ?_
    apply Agree.cond
    · apply Agree.startToken fun _ _ => ?_
      apply identifier_agrees.bind fun _ _ _ => ?_
      apply htype.bind fun _ _ _ => ?_
      apply Agree.alloc.bind fun _ _ _ => ?_
      exact Agree.duplicate.bind fun _ _ _ => .pure trivial
    · exact htype.bind fun _ _ _ => .pure trivial
  have hreturn : Agree env Whatever (returnType read) (returnType read') := by
    apply Agree.check fun c => ?_
    apply Agree.cond
    · apply Agree.consume.bind fun _ _ _ => ?_
      apply Agree.check fun c => ?_
      apply Agree.cond
      · exact Agree.consume.bind fun _ _ _ => .pure trivial
      · apply htype.bind fun _ _ _ => ?_
        exact Agree.expectOr.bind fun _ _ _ => .pure trivial
    · exact .pure trivial
  apply Agree.expectOr.bind fun _ _ _ => ?_
  apply hreceiver.bind fun _ _ _ => ?_
  apply Agree.expectOr.bind fun _ _ _ => ?_
  apply Agree.expectAny.bind fun _ _ _ => ?_
  apply Agree.alloc.bind fun _ _ _ => ?_
  apply (Agree.parenthesizedList hpair).bind fun _ _ _ => ?_
  apply hreturn.bind fun _ _ _ => ?_
  exact .alloc

/-- What agrees on every bound above the least agrees on all, for on that nothing succeeds. -/
theorem readN_agrees {p : Production} (h : ∀ depth depth',
      Agree env Whatever (step (readN depth) p) (step (readN depth') p)) (depth depth' : Nat) :
    Agree env Whatever (readN depth p) (readN depth' p) := by
  cases depth with
  | zero => exact fun _ _ _ _ _ _ _ hs => nomatch hs
  | succ depth =>
    cases depth' with
    | zero => exact fun _ _ _ _ _ _ _ _ ht => nomatch ht
    | succ depth' => exact h depth depth'

/-- Where a signature ends is the same on every bound. -/
theorem readN_signature_agrees : ∀ depth depth',
    Agree env Whatever (readN depth .signature) (readN depth' .signature) := by
  have htype : ∀ depth depth', Agree env Whatever (readN depth .type) (readN depth' .type) := by
    intro depth
    induction depth with
    | zero => exact fun _ _ _ _ _ _ _ _ hs => nomatch hs
    | succ depth ih =>
      intro depth'
      cases depth' with
      | zero => exact fun _ _ _ _ _ _ _ _ ht => nomatch ht
      | succ depth' => exact type_agrees (ih depth')
  have hpair : ∀ depth depth', Agree env Whatever (readN depth .pair) (readN depth' .pair) :=
    readN_agrees fun depth depth' => pair_agrees (htype depth depth')
  exact readN_agrees fun depth depth' =>
    signature_agrees (htype depth depth') (hpair depth depth')

end Again

/-- A block that is not opened is given up at once. -/
theorem readN_block_unopened (depth : Nat) (h : s.cursor.check .lbrace = false) :
    (readN depth .block .standard s).2 = s := by
  cases depth with
  | zero => rfl
  | succ depth =>
    obtain ⟨e, hrun⟩ := expect_unmet .standard h
    change (block (readN depth) .standard s).2 = s
    unfold block
    rw [bind_run, Action.bind_run, hrun]

/-- Where a method fails all is quiet, or a brace is behind every signature that is read there. -/
theorem readN_method_failed (depth : Nat) {d : Stop}
    (hrun : readN depth .method .standard s = (.error d, s')) :
    (quiet .builtin).Rel s.stage s'.stage ∨ ∀ depth' t id t', s.cursor.rest = t.cursor.rest →
      readN depth' .signature .standard t = (.ok id, t') → t'.cursor.check .lbrace = true := by
  cases depth with
  | zero =>
    cases hrun
    exact .inl (Lawful.refl _)
  | succ depth =>
    change method (readN depth) .standard s = (.error d, s') at hrun
    unfold method at hrun
    rw [startToken_bind, bind_run, Action.bind_run] at hrun
    have hsignature : (quiet .builtin).Yields .standard [] (readN depth .signature) .signature :=
      readN_quiet_yields depth rfl
    cases hhead : readN depth .signature .standard s with
    | mk result s₁ =>
      have hquiet := hsignature.rel_of_run hhead
      rw [hhead] at hrun
      cases result with
      | error d' =>
        cases hrun
        exact .inl hquiet
      | ok head =>
        cases hopen : s₁.cursor.check .lbrace with
        | true =>
          right
          intro depth' t id t' hrest ht
          obtain ⟨hsame, -⟩ := readN_signature_agrees depth depth' s t head id s₁ t' hrest hhead ht
          rwa [Cursor.check, ← hsame]
        | false =>
          have hunopened := readN_block_unopened depth hopen
          dsimp only at hrun
          rw [bind_run, Action.bind_run] at hrun
          cases hbody : readN depth .block .standard s₁ with
          | mk result s₂ =>
            rw [hbody] at hrun hunopened
            cases result with
            | error d' =>
              cases hrun
              subst hunopened
              exact .inl hquiet
            | ok body => cases hrun

/-! ## The knot -/

theorem quiet_accounts {p : Parser NodeId} {r : Role} (h : (quiet .builtin).Yields .standard [] p r) :
    Accounts p := by
  intro s id s' hs hrun
  exact ((Booked.start hs).quiet h hrun).accounted.mono (List.nil_subset _)

/-- Every production accounts for its annotations. -/
theorem readN_accounts (depth : Nat) (p : Production) : Accounts (readN depth p) := by
  induction depth generalizing p with
  | zero => exact fun _ _ _ _ hrun => nomatch hrun
  | succ depth ih =>
    have h : Honest (readN depth) := {
      quiet := fun p hp => readN_quiet_yields depth hp
      fitting := readN_fitting depth
      accounts := ih
      method := fun s d s' hrun => (readN_method_failed depth hrun).imp_right fun h => h depth }
    by_cases hp : p.isQuiet
    · exact quiet_accounts (readN_quiet_yields (depth + 1) hp)
    · cases p with
      | deferred => exact deferred_accounts h
      | block => exact block_accounts h
      | method => exact method_accounts h
      | api => exact api_accounts h
      | program => exact program_accounts h
      | annotationCall => exact annotationCall_accounts h
      | _ => exact absurd rfl hp

end Grammar

/-! ## Programs -/

/-- Behind a text that is accepted as a program the operators are those of the language with the
effect of each annotation had, in the order in which the annotations were made, and none of the
calls is refused.  All annotations of the arena are in the tree of the program. -/
theorem Reading.ofSource_operators (source : List Char) (root : NodeId)
    (h : (Reading.ofSource .program source).root = .ok root) :
    let w := (Reading.ofSource .program source).work
    (∀ id name params, w.arena.expr id = .ok (.annotationCall name params) →
        Relation.ReflTransGen w.arena.Child root id) ∧
      ∃ calls, List.Forall₂ w.arena.Effect w.arena.annotations calls ∧
        calls.foldlM (fun t c => c.run t) OperatorTable.builtin = .ok w.operators := by
  intro w
  obtain ⟨tokens, s, hrun, harena, hoperators⟩ := Reading.ofSource_ok h
  have hempty : (ParserState.start tokens .builtin).WellKinded := wellKinded_empty
  obtain ⟨ids, hadds, habove⟩ := Grammar.readN_accounts _ .program _ root s hempty hrun
  have hids : s.work.arena.annotations = ids := hadds.annotations
  rw [harena, hoperators, hids]
  refine ⟨fun id name params he => ?_, hadds.operators⟩
  have hmem : id ∈ ids := hids ▸ mem_annotations.mpr ⟨name, params, he⟩
  obtain ⟨top, htop, hid⟩ := habove id hmem
  obtain rfl := List.mem_singleton.mp htop
  exact hid.reaches

/-- A program with an annotation ahead of an API and one in its body. -/
def twoAnnotations : List Char :=
  "@Operator.Infix((T) ^ ()) api A \x7b @Operator.Binds((T) ^ (), (T) * ()) \x7d".toList

theorem Reading.ofSource_operators_twoAnnotations :
    ∃ root, (Reading.ofSource .program twoAnnotations).root = .ok root ∧
      let w := (Reading.ofSource .program twoAnnotations).work
      w.arena.annotations = [⟨6⟩, ⟨20⟩] ∧
        (∀ id name params, w.arena.expr id = .ok (.annotationCall name params) →
          Relation.ReflTransGen w.arena.Child root id) ∧
        ∃ calls, List.Forall₂ w.arena.Effect w.arena.annotations calls ∧
          calls.foldlM (fun t c => c.run t) OperatorTable.builtin = .ok w.operators := by
  have hread : ((Reading.ofSource .program twoAnnotations).root.toOption.isSome &&
      (Reading.ofSource .program twoAnnotations).work.arena.annotations == [⟨6⟩, ⟨20⟩]) = true := by
    decide +kernel
  obtain ⟨hsome, hannotations⟩ := Bool.and_eq_true_iff.mp hread
  obtain ⟨root, hroot⟩ := Reading.exists_root hsome
  exact ⟨root, hroot, eq_of_beq hannotations, Reading.ofSource_operators twoAnnotations root hroot⟩

end ApiSyntax
