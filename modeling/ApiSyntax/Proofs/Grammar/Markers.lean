/-
  ApiSyntax/Proofs/Grammar/Markers.lean --- an annotation without parameters in front of a method.

  An annotation that takes no parameters tries the parentheses behind its name as a list of
  parameters.  In front of a method they hold a receiver, and there the list is given up
  (`parameterList_lost`).  What the attempt leaves behind are nodes that nothing points at, so
  the method and all that follows is read as it would be without the annotation, under
  handles that are ahead.

  Main statement: `marker_leaves_method`.
-/
import ApiSyntax.Proofs.Arena.Ahead
import ApiSyntax.Proofs.Grammar.Likeness
import ApiSyntax.Proofs.Grammar.Phases
import ApiSyntax.Proofs.Grammar.Receivers

set_option autoImplicit false

namespace ApiSyntax

/-! ## Names of extensions -/

namespace Language

/-- Parts of a name, each behind a dot. -/
inductive Dotted : List Token → List String → Prop
  | none : Dotted [] []
  | some {dot t : Token} {rest : List Token} {parts : List String} (hdot : dot.is .dot)
      (ht : Grammar.partKinds.any t.is) (others : Dotted rest parts) :
      Dotted (dot :: t :: rest) (t.value :: parts)

/-- The words of a name. -/
inductive Words : List Token → String → Prop
  | mk {t : Token} {rest : List Token} {parts : List String} (ht : Grammar.partKinds.any t.is)
      (others : Dotted rest parts) :
      Words (t :: rest) (".".intercalate (t.value :: parts))

end Language

namespace Grammar

open ApiSyntax.Arena ApiSyntax.Language ApiSyntax.Parser

variable {S : Setting} {env : ParserEnv} {s s' : ParserState} {words rest : List Token}

/-- One round of the name of an extension: a dot and a part, or the end. -/
def nameRound (parts : List String) : Parser (Round (List String) (List String)) := do
  if hasPart (← remaining) then
    let _ ← consume
    return .more (parts ++ [(← consume).value])
  else return .done parts

theorem extensionName_eq : extensionName = (do
    let first ← expectAny partKinds true
    let parts ← loop nameRound [first.value]
    return ".".intercalate parts) := rfl

theorem hasPart_of_stops (h : Stops [.dot] rest) : hasPart rest = false := by
  match rest with
  | [] => rfl
  | [_] => rfl
  | dot :: _ :: _ =>
    have hdot : dot.is .dot = false := h dot rfl .dot List.mem_cons_self
    rw [hasPart, hdot, Bool.false_and]

theorem nameRounds {parts sofar : List String} {fuel : Nat} (h : Dotted words parts)
    (hs : S.Fits s) (hrest : s.cursor.rest = words ++ rest) (hstop : Stops [.dot] rest)
    (hfuel : words.length < fuel) :
    Accepts S (loopN nameRound fuel sofar) env s rest fun found _ => found = sofar ++ parts := by
  induction h generalizing s sofar fuel with
  | none =>
    obtain ⟨fuel, rfl⟩ : ∃ m, fuel = m + 1 := ⟨fuel - 1, by omega⟩
    refine loopN_done (.remaining ?_)
    rw [hrest, List.nil_append, hasPart_of_stops hstop]
    exact .pure hs hrest (List.append_nil sofar).symm
  | @some dot t words parts hdot ht _ ih =>
    rw [List.length_cons, List.length_cons] at hfuel
    obtain ⟨fuel, rfl⟩ : ∃ m, fuel = m + 1 := ⟨fuel - 1, by omega⟩
    let More : Round (List String) (List String) → ParserState → Prop :=
      Continues fun found _ => found = sofar ++ [t.value]
    have hround : Accepts S (nameRound sofar) env s (words ++ rest) More := by
      refine .remaining ?_
      rw [hrest, List.cons_append, List.cons_append, hasPart, hdot, ht]
      refine (consume_accepts hs hrest).bind fun _ s₁ hs₁ hrest₁ _ => ?_
      refine (consume_accepts hs₁ hrest₁).bind fun u s₂ hs₂ hrest₂ hu => ?_
      subst hu
      exact .pure hs₂ hrest₂ rfl
    refine loopN_more hround fun found s₁ hs₁ hrest₁ hfound => ?_
    subst hfound
    refine (ih hs₁ hrest₁ (by omega)).mono fun found _ hfound => ?_
    rw [hfound, List.append_assoc, List.singleton_append]

theorem extensionName_accepts {name : String} (h : Words words name) (hs : S.Fits s)
    (hrest : s.cursor.rest = words ++ rest) (hstop : Stops [.dot] rest) :
    Accepts S extensionName env s rest fun found _ => found = name := by
  cases h with
  | mk ht others =>
    rw [List.cons_append] at hrest
    rw [extensionName_eq]
    refine (expectAny_accepts hs hrest ht).bind fun t s₁ hs₁ hrest₁ hfirst => ?_
    subst hfirst
    have hfuel := congrArg List.length hrest₁
    rw [List.length_append] at hfuel
    refine (loop_accepts (nameRounds others hs₁ hrest₁ hstop (by omega))).bind
      fun parts s₂ hs₂ hrest₂ hparts => ?_
    subst hparts
    exact .pure hs₂ hrest₂ rfl

theorem extensionAt_accepts {place : Span} {name : String} {e : Extension}
    (hget : env.extensions.get? name = some e) (hs : S.Fits s) (hrest : s.cursor.rest = rest) :
    Accepts S (extensionAt place name) env s rest fun found _ => found = e := by
  refine .given ?_
  rw [hget]
  exact .pure hs hrest rfl

/-! ## Annotations in front of a receiver -/

section

variable {depth : Nat} {e : Extension} {sign l r : Token} {seg tail : List Token} {u : Tree}
  {named : Option Tree}

/-- In front of a receiver an extension without parameters is given none, and the place stays. -/
theorem parameters_skip (hplain : e.parameters = []) (hl : l.is .lparen)
    (receiver : Language.Receiver env seg u named) (hr : r.is .rparen)
    (hrest : s.cursor.rest = l :: (seg ++ r :: tail))
    (hdepth : 2 * s.cursor.rest.length + 1 ≤ depth) :
    ∃ s', parameters (readN depth) e env s = (.ok [], s') ∧ s'.cursor = s.cursor ∧
      Step (.fixed s.work.operators) s s' [] [] := by
  obtain ⟨d, s', hlist, hlost⟩ := parameterList_lost hl receiver hr hrest hdepth
  let back : ParserState := { s with
    work := { s'.work with events := s'.work.events.push (.rewound s.cursor.index d) } }
  refine ⟨back, ?_, rfl, hlost.back (fixed_fits s) rfl⟩
  have hempty : e.parameters.isEmpty = true := by rw [hplain]; rfl
  rw [parameters, check_bind, check_of_rest hrest hl, if_pos rfl, if_pos hempty, bind_run,
    Action.bind_run, attempt, hlist]
  rfl

/-- An extension that changes nothing runs. -/
theorem invoke_step {b : ParserState} {ts : List Tree} {passed : List Token} {name : String}
    {place : Span} {node : NodeId} (hinert : e.Inert) (h : Step S b s passed ts) :
    ∃ s', invoke e name place node [] env s = (.ok (), s') ∧ s'.cursor = s.cursor ∧
      Step S b s' passed ts := by
  let noted : Workspace :=
    { s.work with events := s.work.events.push (.invoking name s.phase place) }
  obtain ⟨w, hrun, harena, htable⟩ := hinert ⟨s.phase, node⟩ [] noted
  have hgrows : Grows b.work.arena w.arena ts := by
    rw [harena]
    exact h.arena
  refine ⟨{ s with work := w }, ?_, rfl, h.workspace htable hgrows⟩
  have hinvoke : invoke e name place node [] env s =
      building ((e.invoke ⟨s.phase, node⟩ []).mapError fun d => .failed (d.orPlaced place)) env
        { s with work := noted } := rfl
  rw [hinvoke, building_run, Action.mapError, hrun]

/-- The node of an annotation without parameters is made, and its extension changes nothing. -/
theorem annotation_made {b : ParserState} {passed : List Token} {name : String} {place : Span}
    (hinert : e.Inert) (h : Step S b s passed []) (hrest : s.cursor.rest = rest) :
    Accepts S (do
      let node ← alloc sign (.annotationCall name [])
      invoke e name place node []
      return node) env s rest
      fun id s' => Step S b s' passed [.leaf id sign (.annotationCall name [])] := by
  let Made (id : NodeId) (seg : List Token) (ts : List Tree) : Prop :=
    seg = passed ∧ ts = [.leaf id sign (.annotationCall name [])]
  have hnone : Step S b s passed ([] ++ []) := h
  have hmade : Outcome S b Made (alloc sign (.annotationCall name []) env s) :=
    hnone.allocated rfl fun t ht => ⟨rfl, congrArg (fun t => [t]) ht⟩
  refine (alloc_accepts h.fits hrest).after hmade ?_
  rintro id s₁ seg _ ⟨rfl, rfl⟩ h₁ hrest₁ -
  obtain ⟨s₂, hrun, hcursor, h₂⟩ : ∃ s₂, invoke e name place id [] env s₁ = (.ok (), s₂) ∧
      s₂.cursor = s₁.cursor ∧ Step S b s₂ seg [.leaf id sign (.annotationCall name [])] :=
    invoke_step hinert h₁
  exact ⟨id, s₂, by rw [bind_run, Action.bind_run, hrun]; rfl, hcursor ▸ hrest₁, h₂.fits, h₂⟩

/-- In front of a receiver an annotation without parameters ends behind its name.  It makes its
node, and nothing that was there before changes. -/
theorem annotationCall_step {name : String} (hget : env.extensions.get? name = some e)
    (hplain : e.parameters = []) (hinert : e.Inert) (hsign : sign.is .annotationSign)
    (hwords : Words words name) (hl : l.is .lparen)
    (receiver : Language.Receiver env seg u named) (hr : r.is .rparen)
    (hrest : s.cursor.rest = sign :: (words ++ l :: (seg ++ r :: tail)))
    (hdepth : 2 * s.cursor.rest.length ≤ depth + 1) :
    Accepts (.fixed s.work.operators) (annotationCall (readN depth)) env s
      (l :: (seg ++ r :: tail)) fun id s' => ∃ passed,
        Step (.fixed s.work.operators) s s' passed [.leaf id sign (.annotationCall name [])] := by
  have hs := fixed_fits s
  refine (expect_accepts hs hrest hsign).next (Step.refl hs) (expect_reads _) ?_
  rintro t s₁ _ _ ⟨-, rfl, rfl⟩ h₁ hrest₁ ht
  obtain rfl : sign = t := ht.symm
  refine (extensionName_accepts hwords h₁.fits hrest₁ (stops_of_is hl (by decide))).next h₁
    extensionName_reads ?_
  rintro text s₂ part _ rfl h₂ hrest₂ htext
  obtain rfl : name = text := htext.symm
  refine (extensionAt_accepts hget h₂.fits hrest₂).next h₂ extensionAt_reads ?_
  rintro found s₃ _ _ ⟨-, rfl, rfl⟩ h₃ hrest₃ hfound
  obtain rfl : e = found := hfound.symm
  have htable : s₃.work.operators = s.work.operators := h₃.fits.tables
  have hshorter : 2 * s₃.cursor.rest.length + 1 ≤ depth := by
    rw [hrest, List.length_cons, List.length_append] at hdepth
    rw [hrest₃]
    omega
  obtain ⟨s₄, hrun, hcursor, h₄⟩ := parameters_skip hplain hl receiver hr hrest₃ hshorter
  rw [htable] at h₄
  have hskip : Accepts (.fixed s.work.operators) (parameters (readN depth) e) env s₃
      (l :: (seg ++ r :: tail)) fun ids s' => ids = [] ∧ s' = s₄ :=
    ⟨[], s₄, hrun, hcursor ▸ hrest₃, h₄.fits, rfl, rfl⟩
  refine hskip.bind ?_
  rintro _ s₄ - hrest₄ ⟨rfl, rfl⟩
  refine .atArena (a := []) rfl ?_
  rw [if_pos hplain.symm]
  exact (annotation_made hinert (h₃.trans h₄) hrest₄).mono fun _ _ h => ⟨_, h⟩

end

/-! ## The body behind a marker -/

/-- A production leaves the phase as it was. -/
theorem readN_phase (depth : Nat) (p : Production) (env : ParserEnv) (s : ParserState) :
    (readN depth p env s).2.phase = s.phase := by
  have hbetween : (Coupling.itself env False).Between s.phase (readN depth p) (readN depth p) :=
    Coupling.readN_between (.inl rfl) (.inr Coupling.strict_itself)
  exact (hbetween 0 false).same_of_beside.resolve_right (fun h => h.1) |>.2

theorem find_annotationCall {t : Token} (ht : t.is .annotationSign) :
    declarations.find? (applies (t :: rest)) = some .annotationCall := by
  have hword : t.isValue .keyword "type" = false := isValue_of_is ht rfl
  have hopen : t.is .lparen = false := Token.is_of_is ht _
  simp only [declarations, applies, Production.trigger, startsWithKeyword, startsWithPair,
    startsWith, List.find?_cons, hword, hopen, ht, Bool.false_eq_true, if_false]

/-- Behind a step that has left everything as it was, handles are ahead. -/
theorem states_ahead {ts : List Tree} {passed : List Token} {t : Token}
    (hclosed : s.work.arena.Closed) (hstep : Step (.fixed s.work.operators) s s' passed ts)
    (hphase : s'.phase = s.phase) (hrest : s'.cursor.rest = t :: rest) :
    (Likeness.ahead s.work.arena.size (s'.work.arena.size - s.work.arena.size)).States
      { s with cursor := ⟨s.cursor.consumed, t :: rest⟩ } s' := by
  have hle : s.work.arena.size ≤ s'.work.arena.size := by
    obtain ⟨_, hforest⟩ := hstep.arena
    exact hforest.le
  refine ⟨⟨?_, nofun⟩, hphase.symm, ?_, hstep.fits.tables.symm⟩
  · rw [hrest]
    exact List.forall₂_same.mpr fun _ _ => rfl
  · exact Likeness.Arenas.of_kept hclosed hle fun _ => hstep.arena.kept

/-- Extensions that are portable, and one that changes nothing, act alike where handles are
ahead. -/
theorem respects_ahead {name : String} {e : Extension} (first gap : Nat)
    (hget : env.extensions.get? name = some e) (hinert : e.Inert)
    (hothers : ∀ other x, other ≠ name → env.extensions.get? other = some x → x.Portable) :
    env.extensions.Respects (.ahead first gap) := by
  intro other x hx
  by_cases hother : other = name
  · subst hother
    cases hget.symm.trans hx
    exact hinert.portable first gap
  · exact hothers other x hother hx first gap

/-- A round of a body that is not the last one. -/
theorem apiRound_declares {read : Production → Parser NodeId} {opened : Span} {t : Token}
    {body : List NodeId} (ht : t.is .rbrace = false) (hrest : s.cursor.rest = t :: rest) :
    apiRound read opened body env s = (do
      let id ← declaration read
      return .more (body ++ [id]) : Parser (Round (List NodeId) (List NodeId))) env s := by
  rw [apiRound, remaining_bind, hrest, List.head?_cons]
  dsimp only
  rw [if_neg (by simp [ht])]

section

variable {L : Likeness} [L.Lawful] {depth depth' : Nat} {l a : Token} {tail : List Token}
  {t : ParserState} {opened : Span} {body : List NodeId} {id : NodeId}

open ApiSyntax.Action

/-- Where a signature stands both runs read a method. -/
theorem declaration_paced (hextensions : env.extensions.Respects L) (hdepth : depth ≤ depth')
    (hl : l.is .lparen) (ha : [TokenKind.typeIdentifier, .identifier, .lbracket].any a.is)
    (hrest : s.cursor.rest = l :: a :: tail) (hst : L.States s t) :
    Paced L.States L.Fails
      (fun m m' => (∃ s', readN depth .method env s = (.ok m, s')) ∧ m' = L.move m)
      (declaration (readN depth) env s) (declaration (readN depth') env t) := by
  have hpaced := Likeness.declaration_moves (Likeness.readN_moves hextensions hdepth) s t hst
  generalize hrun : declaration (readN depth) env s = r, declaration (readN depth') env t = r'
    at hpaced
  cases hpaced with
  | failed h meets => exact .failed h meets
  | spent => exact .spent
  | @done m m' s' t' h meets =>
    have hone : (declarations.map (Production.ruleOf (readN depth))).filter
        (·.accepts s.cursor.rest) = [Production.ruleOf (readN depth) .method] := by
      rw [List.filter_map, hrest]
      exact congrArg (List.map _) (filter_method hl ha)
    obtain ⟨rule, hrule, hmethod⟩ :=
      dispatch_eq_ok_of_one (Nat.le_of_eq (congrArg List.length hone)) hrun
    rw [hone, List.mem_singleton] at hrule
    subst hrule
    exact .done ⟨⟨s', hmethod⟩, h⟩ meets

/-- The first body has a method and what comes behind it; the second one has the node of the marker
in front of the same under handles that are ahead. -/
def MarkedBody (L : Likeness) (env : ParserEnv) (depth : Nat) (s : ParserState)
    (body : List NodeId) (id : NodeId) (found found' : List NodeId) : Prop :=
  ∃ m others, (∃ s', readN depth .method env s = (.ok m, s')) ∧
    found = body ++ m :: others ∧ found' = body ++ id :: L.move m :: others.map L.move

omit [L.Lawful] in
theorem MarkedBody.snoc {found found' : List NodeId}
    (h : MarkedBody L env depth s body id found found') (next : NodeId) :
    MarkedBody L env depth s body id (found ++ [next]) (found' ++ [L.move next]) := by
  obtain ⟨m, others, hmethod, rfl, rfl⟩ := h
  refine ⟨m, others ++ [next], hmethod, ?_, ?_⟩
  · rw [List.append_assoc, List.cons_append]
  · rw [List.append_assoc, List.cons_append, List.cons_append, List.map_append, List.map_singleton]

/-- The rest of a body, from a method on. -/
theorem bodies_paced (hextensions : env.extensions.Respects L) (hdepth : depth ≤ depth')
    (hl : l.is .lparen) (ha : [TokenKind.typeIdentifier, .identifier, .lbracket].any a.is)
    (hrest : s.cursor.rest = l :: a :: tail) (hst : L.States s t) {fuel fuel' : Nat}
    (hfuel : fuel ≤ fuel') :
    Paced L.States L.Fails (MarkedBody L env depth s body id)
      (loopN (apiRound (readN depth) opened) fuel body env s)
      (loopN (apiRound (readN depth') opened) fuel' (body ++ [id]) env t) := by
  cases fuel with
  | zero => exact .spent
  | succ fuel =>
    obtain ⟨fuel', rfl⟩ : ∃ k, fuel' = k + 1 := ⟨fuel' - 1, by omega⟩
    have hbrace : l.is .rbrace = false := Token.is_of_is hl _
    have hboth := hst.place.rest
    rw [hrest] at hboth
    obtain ⟨l', tail', hl', -, hrest'⟩ := List.forall₂_cons_left_iff.mp hboth
    have hbrace' : l'.is .rbrace = false :=
      ((Likeness.Lawful.alike hl').is .rbrace).symm.trans hbrace
    let Bodies := MarkedBody L env depth s body id
    have hround : Paced L.States L.Fails (Likeness.Tracks.Rounds Bodies Bodies)
        (apiRound (readN depth) opened body env s)
        (apiRound (readN depth') opened (body ++ [id]) env t) := by
      rw [apiRound_declares hbrace hrest, apiRound_declares hbrace' hrest']
      refine (declaration_paced hextensions hdepth hl ha hrest hst).bind fun m m' hm => ?_
      obtain ⟨hmethod, rfl⟩ := hm
      exact Likeness.Tracks.pure (.more ⟨m, [], hmethod, rfl, List.append_assoc ..⟩)
    refine hround.bind fun r r' hr => ?_
    cases hr with
    | done h => exact Likeness.Tracks.pure h
    | more h =>
      refine Likeness.Tracks.loopN (Nat.le_of_succ_le_succ hfuel) (fun found found' h => ?_) h
      exact Likeness.apiRound_tracks (Likeness.readN_moves hextensions hdepth)
        (Likeness.Lawful.refl opened) h h.snoc

end

/-- A marker is read in one round. -/
theorem apiRound_marker {depth : Nat} {sign : Token} {opened : Span} {body : List NodeId}
    {id : NodeId} (hsign : sign.is .annotationSign) (hrest : s.cursor.rest = sign :: rest)
    (hrun : readN depth .annotationCall env s = (.ok id, s')) :
    apiRound (readN depth) opened body env s = (.ok (.more (body ++ [id])), s') := by
  have hfind : declarations.find? (applies s.cursor.rest) = some .annotationCall := by
    rw [hrest]
    exact find_annotationCall hsign
  have hread : Accepts .any (readN depth .annotationCall) env s s'.cursor.rest
      fun found found' => found = id ∧ found' = s' :=
    ⟨id, s', hrun, rfl, ⟨trivial, fun _ _ => trivial⟩, rfl, rfl⟩
  have hdeclares : Accepts .any (declaration (readN depth)) env s s'.cursor.rest
      fun found found' => found = id ∧ found' = s' := choice_accepts hfind hread
  obtain ⟨_, _, hdeclaration, -, -, rfl, rfl⟩ := hdeclares
  rw [apiRound_declares (Token.is_of_is hsign _) hrest, bind_run, Action.bind_run, hdeclaration]
  rfl

end Grammar

open ApiSyntax.Grammar ApiSyntax.Language ApiSyntax.Action

/-- A marker in front of a method.  Its node has no parameters, and from there on the run keeps up
with one that does not have the marker ahead: every method, and every rest of a body, is read the
same under handles that are ahead, or fails the same.  The other extensions act alike wherever
handles are ahead, and no node that is there tells of a handle still to come. -/
theorem marker_leaves_method {env : ParserEnv} {s : ParserState} {name : String} {e : Extension}
    {sign l r : Token} {words seg tail : List Token} {u : Tree} {named : Option Tree} {depth : Nat}
    (hget : env.extensions.get? name = some e) (hplain : e.parameters = []) (hinert : e.Inert)
    (hothers : ∀ other x, other ≠ name → env.extensions.get? other = some x → x.Portable)
    (hclosed : s.work.arena.Closed) (hsign : sign.is .annotationSign) (hwords : Words words name)
    (hl : l.is .lparen) (receiver : Language.Receiver env seg u named) (hr : r.is .rparen)
    (hrest : s.cursor.rest = sign :: (words ++ l :: (seg ++ r :: tail)))
    (hdepth : 2 * s.cursor.rest.length ≤ depth) :
    let plain : ParserState := { s with cursor := ⟨s.cursor.consumed, l :: (seg ++ r :: tail)⟩ }
    ∃ id s', readN depth .annotationCall env s = (.ok id, s') ∧
      (∃ tags, s'.work.arena.node? id = some ⟨id, sign, tags, .annotationCall name []⟩) ∧
      let L := Likeness.ahead s.work.arena.size (s'.work.arena.size - s.work.arena.size)
      L.States plain s' ∧ ∀ depth₀ ≤ depth,
        Paced L.States L.Fails (fun m m' => m' = L.move m) (readN depth₀ .method env plain)
          (readN depth .method env s') ∧
        ∀ opened body fuel₀ fuel, fuel₀ < fuel →
          Paced L.States L.Fails (MarkedBody L env depth₀ plain body id)
            (Parser.loopN (apiRound (readN depth₀) opened) fuel₀ body env plain)
            (Parser.loopN (apiRound (readN depth) opened) fuel body env s) := by
  intro plain
  have hlength := congrArg List.length hrest
  rw [List.length_cons] at hlength
  obtain ⟨bound, rfl⟩ : ∃ k, depth = k + 1 := ⟨depth - 1, by omega⟩
  obtain ⟨id, s', hread, hrest', -, passed, hstep⟩ :=
    annotationCall_step hget hplain hinert hsign hwords hl receiver hr hrest hdepth
  have hrun : readN (bound + 1) .annotationCall env s = (.ok id, s') := hread
  have hphase : s'.phase = s.phase := by
    rw [← readN_phase (bound + 1) .annotationCall env s, hrun]
  refine ⟨id, s', hrun, (hstep.arena.holds List.mem_cons_self).shows.found, ?_⟩
  intro L
  have hst : L.States plain s' := states_ahead hclosed hstep hphase hrest'
  have hextensions : env.extensions.Respects L := respects_ahead _ _ hget hinert hothers
  obtain ⟨a, inner, rfl, ha⟩ := first_of_receiver receiver
  refine ⟨hst, fun depth₀ hdepth₀ => ⟨?_, fun opened body fuel₀ fuel hfuel => ?_⟩⟩
  · exact Likeness.readN_moves hextensions hdepth₀ .method plain s' hst
  · obtain ⟨fuel, rfl⟩ : ∃ k, fuel = k + 1 := ⟨fuel - 1, by omega⟩
    rw [Parser.loopN, Parser.bind_run, Action.bind_run, apiRound_marker hsign hrest hrun]
    exact bodies_paced hextensions hdepth₀ hl ha rfl hst (Nat.le_of_lt_succ hfuel)

/-! ### A marker in front of a method of lists -/

/-- A marker: it takes nothing and changes nothing. -/
def marking : Extension := ⟨"E", [], fun _ _ => return ()⟩

theorem inert_marking : marking.Inert := fun _ _ w => ⟨w, rfl, rfl, rfl⟩

/-- A language that has the marker, besides `others`. -/
def markingEnv (others : List Extension) : ParserEnv := ⟨⟨marking :: others⟩, flatName, .default⟩

/-- Tokens behind an annotation without parameters. -/
def annotated (name : String) (rest : List Token) : List Token :=
  ⟨.annotationSign, "@", .start⟩ :: ⟨.typeIdentifier, name, .start⟩ :: rest

/-- The tokens of `([X]) f () {} }`. -/
def listMethod : List Token :=
  [⟨.lparen, "(", .start⟩, ⟨.lbracket, "[", .start⟩, ⟨.typeIdentifier, "X", .start⟩,
    ⟨.rbracket, "]", .start⟩, ⟨.rparen, ")", .start⟩, ⟨.identifier, "f", .start⟩,
    ⟨.lparen, "(", .start⟩, ⟨.rparen, ")", .start⟩, ⟨.lbrace, "\x7b", .start⟩,
    ⟨.rbrace, "\x7d", .start⟩, ⟨.rbrace, "\x7d", .start⟩]

theorem marker_leaves_method_lists :
    let env := markingEnv Registry.builtin.extensions
    let body (fuel : Nat) (tokens : List Token) : Except Stop (List NodeId) :=
      (Parser.loopN (apiRound (readN 26) .start) fuel [] env (.start tokens .builtin)).1
    body 13 listMethod = .ok [⟨5⟩] ∧
      ∃ id k, body 14 (annotated "E" listMethod) = .ok [id, ⟨5 + k⟩] := by
  intro env body
  let s : ParserState := .start (annotated "E" listMethod) .builtin
  have hothers : ∀ other x, other ≠ "E" → env.extensions.get? other = some x → x.Portable := by
    intro other x hother hx
    have hskip : (marking.name == other) = false := beq_false_of_ne hother.symm
    have hfind : (marking :: Registry.builtin.extensions).find? (·.name == other) = some x := hx
    rw [List.find?_cons, hskip] at hfind
    exact Registry.builtin_portable hfind
  have hclosed : s.work.arena.Closed := fun _ _ hn => nomatch hn
  have hname : Typing env [⟨.typeIdentifier, "X", .start⟩] (typeLeaf env default _) :=
    .named (.mk rfl)
  have hreceiver : Language.Receiver env (listMethod.tail.take 3)
      (.node default _ (.listType default) [_]) none := .static (.list rfl hname rfl)
  have hrest : s.cursor.rest = ⟨.annotationSign, "@", .start⟩ ::
      ([⟨.typeIdentifier, "E", .start⟩] ++ ⟨.lparen, "(", .start⟩ ::
        (listMethod.tail.take 3 ++ ⟨.rparen, ")", .start⟩ :: listMethod.drop 5)) := rfl
  have hdepth : 2 * s.cursor.rest.length ≤ 26 := by decide
  obtain ⟨id, s', -, -, -, hall⟩ := marker_leaves_method (e := marking) rfl rfl inert_marking
    hothers hclosed rfl (.mk rfl .none) rfl hreceiver rfl hrest hdepth
  let plain : ParserState := .start listMethod .builtin
  let read (fuel : Nat) : Parser (List NodeId) := Parser.loopN (apiRound (readN 26) .start) fuel []
  let L := Likeness.ahead 0 s'.work.arena.size
  have hpaced : Paced L.States L.Fails (MarkedBody L env 26 plain [] id) (read 13 env plain)
      (read 14 env s) := (hall 26 (Nat.le_refl _)).2 .start [] 13 14 (by decide)
  have hpasses : Outcome.passes (read 13 env plain) fun found _ => found = [⟨5⟩] := by
    decide +kernel
  obtain ⟨found, s₁, hplain, hfound⟩ := Outcome.exists_of_passes hpasses
  obtain rfl : found = [⟨5⟩] := of_decide_eq_true hfound
  refine ⟨congrArg Prod.fst hplain, id, s'.work.arena.size, ?_⟩
  change (read 14 env s).1 = _
  rw [hplain] at hpaced
  generalize read 14 env s = marked at hpaced ⊢
  cases hpaced with
  | done h =>
    obtain ⟨m, others, -, hone, rfl⟩ := h
    obtain ⟨rfl, rfl⟩ : m = ⟨5⟩ ∧ others = [] := by simpa using hone.symm
    rfl

/-! ### Extensions that tell handles apart -/

/-- It asks for the name of the signature of one handle. -/
def asking : Extension := ⟨"F", [], fun site _ => do
  let _ ← Workspace.ask fun w => site.signatureName w.arena ⟨3⟩⟩

/-- It lets its annotation tell of the handle that comes next. -/
def foretelling : Extension := ⟨"G", [], fun site _ => Workspace.edit fun a =>
  .ok ((), a.setExpr site.node (.annotationCall "G" [a.next]))⟩

/-- The tokens of `(X) f () { @F } }`. -/
def askingMethod : List Token :=
  [⟨.lparen, "(", .start⟩, ⟨.typeIdentifier, "X", .start⟩, ⟨.rparen, ")", .start⟩,
    ⟨.identifier, "f", .start⟩, ⟨.lparen, "(", .start⟩, ⟨.rparen, ")", .start⟩,
    ⟨.lbrace, "\x7b", .start⟩] ++
    annotated "F" [⟨.rbrace, "\x7d", .start⟩, ⟨.rbrace, "\x7d", .start⟩]

/-- A program of one API, read with one extension besides the marker. -/
def readApi (other : Extension) (body : List Token) : Except Stop NodeId × ParserState :=
  Production.program.parse (markingEnv [other]) (.start ([⟨.keyword, "api", .start⟩,
    ⟨.typeIdentifier, "A", .start⟩, ⟨.lbrace, "\x7b", .start⟩] ++ body) .builtin)

/-- A marker in front of a method has an effect on extensions that tell handles apart, and where a
node tells of a handle to come.  A method that is read without the marker fails with it; and the
node of another annotation has the type of the receiver in its slot without it, but the marker with
it. -/
theorem marker_shifts_handles :
    (readApi asking askingMethod).1 = .ok ⟨8⟩ ∧
      (readApi asking (annotated "E" askingMethod)).1 = .error (.failed
        ⟨.extensionParameterMismatch "signature" "Signature" "Identifier", some .start, none⟩) ∧
      (let (result, s) := readApi foretelling (annotated "G" listMethod)
      result = .ok ⟨9⟩ ∧ s.work.arena.expr ⟨1⟩ = .ok (.annotationCall "G" [⟨2⟩]) ∧
        s.work.arena.expr ⟨2⟩ = .ok (.typeIdentifier "X" false)) ∧
      (let (result, s) := readApi foretelling (annotated "G" (annotated "E" listMethod))
      result = .ok ⟨10⟩ ∧ s.work.arena.expr ⟨1⟩ = .ok (.annotationCall "G" [⟨2⟩]) ∧
        s.work.arena.expr ⟨2⟩ = .ok (.annotationCall "E" [])) := by
  decide +kernel

end ApiSyntax
