/-
  ApiSyntax/Proofs/Grammar/Permissive.lean --- a permissive run is a strict run over what it keeps.

  A permissive run passes over the tokens at the top level that start nothing.  What it reads of
  the others is what a strict run reads of them alone: an annotation or an API ends with its own
  closing bracket, and up to that bracket nothing is seen of what follows, so tokens behind it
  may be left out.

  `sift` goes through the rounds of a permissive run and tells of each token whether it is kept.
  The loop of the strict run is set beside that of the permissive one, round for round, with no
  round for a token that is passed over.
-/
import ApiSyntax.Proofs.Grammar.Progress
import ApiSyntax.Proofs.Grammar.TopLevel
import ApiSyntax.Proofs.Grammar.WellKinded

set_option autoImplicit false

namespace ApiSyntax

open Grammar Coupling

/-- The extensions of the language, with the switches given. -/
def ParserEnv.language (mangle : String → String) (mangles permissive : Bool) : ParserEnv :=
  ⟨.builtin, mangle, ⟨permissive, mangles⟩⟩

/-! ## Sifting -/

namespace Grammar

/-- Exactly one production of the top level applies. -/
def isEntered (tokens : List Token) : Bool :=
  (Production.program.nested.filter (Parser.applies tokens)).length == 1

/-- The tokens ahead, each with whether a permissive run keeps it, over at most `n` rounds.  What
remains where reading fails is kept. -/
def siftN (env : ParserEnv) (read : Production → Parser NodeId) :
    Nat → List NodeId → ParserState → List (Token × Bool)
  | 0, _, s => s.cursor.rest.map (·, true)
  | n + 1, nodes, s =>
      match Parser.executeRound (topLevel read) nodes env s with
      | (.ok (.more nodes'), s') =>
          (s.cursor.rest.take (s.cursor.rest.length - s'.cursor.rest.length)).map
            (·, isEntered s.cursor.rest) ++ siftN env read n nodes' s'
      | _ => s.cursor.rest.map (·, true)

/-- The tokens of a program, each with whether a permissive run keeps it. -/
def sift (env : ParserEnv) (tokens : List Token) (table : OperatorTable) : List (Token × Bool) :=
  siftN env (readN (4 * tokens.length + 7)) (tokens.length + 1) [] (.start tokens table)

/-- The tokens that are kept, or those that are not. -/
def picked (kept : Bool) (marked : List (Token × Bool)) : List Token :=
  (marked.filter (·.2 == kept)).map (·.1)

@[simp] theorem picked_append (kept : Bool) (ms ns : List (Token × Bool)) :
    picked kept (ms ++ ns) = picked kept ms ++ picked kept ns := by
  rw [picked, List.filter_append, List.map_append]
  rfl

@[simp] theorem picked_same (kept : Bool) (ts : List Token) :
    picked kept (ts.map (·, kept)) = ts := by
  induction ts with
  | nil => rfl
  | cons t ts ih =>
    rw [picked] at ih ⊢
    simp [ih]

@[simp] theorem picked_other (ts : List Token) : picked false (ts.map (·, true)) = [] := by
  induction ts with
  | nil => rfl
  | cons t ts ih => exact ih

theorem length_picked_le (kept : Bool) (ms : List (Token × Bool)) :
    (picked kept ms).length ≤ ms.length := by
  rw [picked, List.length_map]
  exact List.length_filter_le _ _

end Grammar

/-! ## Rounds of a permissive run -/

section

variable {env : ParserEnv} {read : Production → Parser NodeId} {nodes : List NodeId}
  {s : ParserState} {t : Token} {ts : List Token}

/-- The rules that apply are those of the productions that do. -/
theorem filter_topLevel (tokens : List Token) :
    (topLevel read).filter (·.accepts tokens) =
      (Production.program.nested.filter (Parser.applies tokens)).map (Production.ruleOf read) :=
  filter_ruleOf read Production.program.nested

/-- Where exactly one production applies its rule does. -/
theorem exists_of_isEntered (h : isEntered (t :: ts)) :
    ∃ p ∈ Production.program.nested, ∀ us read,
      (topLevel read).filter (·.accepts (t :: us)) = [p.ruleOf read] := by
  obtain ⟨p, hp⟩ := List.length_eq_one_iff.mp (beq_iff_eq.mp h)
  refine ⟨p, List.mem_of_mem_filter (hp ▸ List.mem_singleton_self p), fun us read => ?_⟩
  have hsame : Production.program.nested.filter (Parser.applies (t :: us)) =
      Production.program.nested.filter (Parser.applies (t :: ts)) := rfl
  rw [filter_topLevel, hsame, hp]
  rfl

/-- Elsewhere no rule applies: annotations and APIs never both do. -/
theorem filter_of_not_isEntered (h : isEntered (t :: ts) = false) :
    (topLevel read).filter (·.accepts (t :: ts)) = [] := by
  have hle : ((topLevel read).filter (·.accepts (t :: ts))).length ≤ 1 :=
    length_topLevel_le (t :: ts)
  have hne : ((topLevel read).filter (·.accepts (t :: ts))).length ≠ 1 := by
    rw [filter_topLevel, List.length_map]
    exact fun hone => Bool.eq_false_iff.mp h (beq_iff_eq.mpr hone)
  refine List.eq_nil_of_length_eq_zero ?_
  omega

theorem siftN_nil {n : Nat} (hrest : s.cursor.rest = []) : siftN env read (n + 1) nodes s = [] := by
  rw [siftN, Parser.executeRound_nil hrest, hrest]
  rfl

theorem not_singleton_of_not_isEntered (h : isEntered (t :: ts) = false) (rule : Rule) :
    (topLevel read).filter (·.accepts (t :: ts)) ≠ [rule] := by
  rw [filter_of_not_isEntered h]
  exact (List.cons_ne_nil rule []).symm

theorem executeRound_dropped (hpermissive : env.config.permissive)
    (hrest : s.cursor.rest = t :: ts) (h : isEntered (t :: ts) = false) :
    Parser.executeRound (topLevel read) nodes env s =
      (.ok (.more nodes), s.discard t ts 0) := by
  rw [Parser.executeRound_discard hpermissive hrest (not_singleton_of_not_isEntered h),
    filter_of_not_isEntered h]
  rfl

theorem siftN_dropped {n : Nat} (hpermissive : env.config.permissive)
    (hrest : s.cursor.rest = t :: ts) (h : isEntered (t :: ts) = false) :
    siftN env read (n + 1) nodes s =
      (t, false) :: siftN env read n nodes (s.discard t ts 0) := by
  have hone : (t :: ts).length - (s.discard t ts 0).cursor.rest.length = 1 := by
    show ts.length + 1 - ts.length = 1
    omega
  rw [siftN, executeRound_dropped hpermissive hrest h, hrest]
  dsimp only
  rw [hone, h]
  rfl

/-- The production that applies reads a node over `seg`, and `seg` is kept. -/
theorem siftN_read {n : Nat} {p : Production} {id : NodeId} {s' : ParserState} {seg : List Token}
    (hrest : s.cursor.rest = t :: ts) (h : isEntered (t :: ts))
    (hone : (topLevel read).filter (·.accepts (t :: ts)) = [p.ruleOf read])
    (hread : read p env (s.noted (.entered p.name t.span)) = (.ok id, s'))
    (hseg : t :: ts = seg ++ s'.cursor.rest) :
    siftN env read (n + 1) nodes s =
      seg.map (·, true) ++ siftN env read n (nodes ++ [id]) s' := by
  have hlength : (t :: ts).length - s'.cursor.rest.length = seg.length := by
    rw [hseg, List.length_append]
    omega
  rw [siftN, Parser.executeRound_read hrest hone hread, hrest]
  dsimp only [Except.map]
  rw [hlength, h, hseg, List.take_left]

/-- Where reading fails all that remains is kept. -/
theorem siftN_failed {n : Nat} {p : Production} {e : Stop} {s' : ParserState}
    (hrest : s.cursor.rest = t :: ts)
    (hone : (topLevel read).filter (·.accepts (t :: ts)) = [p.ruleOf read])
    (hread : read p env (s.noted (.entered p.name t.span)) = (.error e, s')) :
    siftN env read (n + 1) nodes s = s.cursor.rest.map (·, true) := by
  rw [siftN, Parser.executeRound_read hrest hone hread]
  rfl

end

/-! ## One construct -/

variable {mangle : String → String} {mangles : Bool} {d d' : Nat} {p : Production} {id : NodeId}
  {s s' t t' : ParserState} {told : List Event} {seg keep : List Token}

/-- What stands at the top level ends with the bracket that closes the first one it opened. -/
theorem topLevel_closes {env : ParserEnv} (hext : env.extensions = .builtin)
    (hp : p ∈ Production.program.nested) (hread : readN d p env s = (.ok id, s')) :
    ∃ seg, seg ≠ [] ∧ s.cursor.Passes s'.cursor seg ∧ Level.ahead.after seg = .behind := by
  have hsome : ∀ name e, env.extensions.get? name = some e → e.parameters ≠ [] :=
    fun name e hget => Registry.parameters_ne_nil (hext ▸ hget)
  have htandem : (journey env False s.cursor .ahead).Tandem s.phase .ahead (readN d p) (readN d p)
      fun _ => Mark.ahead.enclosed :=
    readN_topLevel_tandem (.inl rfl) Mark.peeks_ahead (fun _ => hsome) hp
  obtain ⟨seg, htravels⟩ := Coupling.Tandem.travels (m := .ahead) htandem rfl hread
  obtain hlost | hlevel := htravels.level
  · cases hlost
  · exact ⟨seg, htravels.moved rfl, htravels.passes, hlevel⟩

/-- The two runs stand at the top level over the same work, and the second has told `told`. -/
structure Twin (told : List Event) (s t : ParserState) : Prop where
  phase : s.phase = .program
  phase' : t.phase = .program
  work : s.work.Agrees told t.work

variable (mangle mangles) in
/-- Up to the closing bracket, or over the same tokens, both runs read the same. -/
theorem topLevel_ends {tail tail' : List Token} (hd : d ≤ d')
    (hp : p ∈ Production.program.nested) (htail : tail.length ≤ tail'.length)
    (h : Twin told s t) (hs : s.cursor.rest = seg ++ tail) (ht : t.cursor.rest = seg ++ tail')
    (hfenced : Fenced .ahead seg tail tail' s.cursor t.cursor) :
    (fence (.language mangle mangles false) (.language mangle mangles true) tail tail' told).Ends
      .program (fun _ => Mark.ahead.enclosed) (readN d p (.language mangle mangles false) s)
      (readN d' p (.language mangle mangles true) t) := by
  let C := fence (.language mangle mangles false) (.language mangle mangles true) tail tail' told
  have : C.Lawful := fence_lawful rfl rfl rfl htail
  have htandem : C.Tandem .program .ahead (readN d p) (readN d' p) fun _ => Mark.ahead.enclosed :=
    readN_topLevel_tandem (.inr ⟨trivial, hd⟩) Mark.peeks_ahead
      (fun _ _ _ hget => Registry.parameters_ne_nil hget) hp
  exact htandem s t ⟨⟨seg, hs, ht, hfenced⟩, h.phase, h.phase', h.work⟩

/-- A strict run reads the same from the tokens that it has. -/
theorem read_fenced (hd : d ≤ d') (hp : p ∈ Production.program.nested) (h : Twin told s t)
    (hread : readN d' p (.language mangle mangles true) t = (.ok id, t'))
    (ht : t.cursor.rest = seg ++ t'.cursor.rest) (hclosing : Level.ahead.after seg = .behind)
    (hs : s.cursor.rest = seg ++ keep) (hkeep : keep.length ≤ t'.cursor.rest.length)
    (hbounded : (readN d p (.language mangle mangles false) s).1 ≠ .error .exhausted) :
    ∃ s', readN d p (.language mangle mangles false) s = (.ok id, s') ∧
      s'.cursor.rest = keep ∧ Twin told s' t' := by
  have hends := topLevel_ends mangle mangles hd hp hkeep h hs ht (.closing hclosing)
  rw [hread] at hends
  generalize readN d p (.language mangle mangles false) s = r at hends hbounded
  cases hends with
  | @done _ s' _ meets =>
    obtain ⟨between, hs', ht', -⟩ := meets.place
    obtain rfl : between = [] := List.append_left_eq_self.mp ht'.symm
    exact ⟨s', rfl, hs', meets.phase, meets.phase', meets.work⟩
  | spent _ => exact absurd rfl hbounded

/-- What the permissive run fails of the strict run fails of over the same tokens. -/
theorem failure_fenced {e : Stop} (hd : d ≤ d') (hp : p ∈ Production.program.nested)
    (h : Twin told s t)
    (hread : readN d' p (.language mangle mangles true) t = (.error e, t'))
    (hs : s.cursor.rest = t.cursor.rest) (hsome : t.cursor.rest ≠ [])
    (hbounded : (readN d p (.language mangle mangles false) s).1 ≠ .error .exhausted) :
    ∃ s', readN d p (.language mangle mangles false) s = (.error e, s') ∧
      t'.work.discards = told := by
  have hall : t.cursor.rest = t.cursor.rest ++ [] := (List.append_nil _).symm
  have hends := topLevel_ends mangle mangles hd hp (Nat.le_refl _) h (hs.trans hall) hall
    (.whole rfl rfl fun hnil => absurd hnil hsome)
  rw [hread] at hends
  generalize readN d p (.language mangle mangles false) s = r at hends hbounded
  cases hends with
  | @stopped _ s' _ meets => exact ⟨s', rfl, meets.work.discards⟩
  | spent _ => exact absurd rfl hbounded

/-! ## The loop -/

/-- The marks are those of the tokens ahead. -/
theorem siftN_tokens (n : Nat) (nodes : List NodeId) (t : ParserState) :
    (siftN (.language mangle mangles true) (readN d') n nodes t).map (·.1) = t.cursor.rest := by
  have hall : ∀ ts : List Token, (ts.map (·, true)).map (·.1) = ts := fun ts => by
    rw [List.map_map]
    exact List.map_id ts
  induction n generalizing nodes t with
  | zero => exact hall _
  | succ n ih =>
    cases hrest : t.cursor.rest with
    | nil => rw [siftN_nil hrest, List.map_nil]
    | cons u us =>
      cases hentered : isEntered (u :: us) with
      | false => rw [siftN_dropped rfl hrest hentered, List.map_cons, ih]; rfl
      | true =>
        obtain ⟨p, hp, hone⟩ := exists_of_isEntered hentered
        rcases hread : readN d' p (.language mangle mangles true)
          (t.noted (.entered p.name u.span)) with ⟨e | id, t'⟩
        · rw [siftN_failed hrest (hone us _) hread, hall, hrest]
        · obtain ⟨seg, -, hpasses, -⟩ := topLevel_closes rfl hp hread
          have hseg : u :: us = seg ++ t'.cursor.rest := hrest ▸ hpasses.ahead
          rw [siftN_read hrest hentered (hone us _) hread hseg, List.map_append, hall, ih, hseg]

/-- No more is kept than stands ahead. -/
theorem siftN_keep_le (n : Nat) (nodes : List NodeId) (t : ParserState) :
    (picked true (siftN (.language mangle mangles true) (readN d') n nodes t)).length ≤
      t.cursor.rest.length := by
  refine (length_picked_le true _).trans_eq ?_
  rw [← List.length_map Prod.fst, siftN_tokens]

/-- How the loops of the two runs end. -/
inductive LoopEnds (told : List Event) :
    Except Stop (List NodeId) × ParserState → Except Stop (List NodeId) × ParserState → Prop
  | done {nodes : List NodeId} {s t : ParserState} (h : Twin told s t) :
      LoopEnds told (.ok nodes, s) (.ok nodes, t)
  | stopped {e : Stop} {s t : ParserState} (h : t.work.discards = told) :
      LoopEnds told (.error e, s) (.error e, t)

/-- What is told of tokens passed over. -/
def tellings (marked : List (Token × Bool)) : List Event :=
  (picked false marked).map fun t => .discarded t.value t.span 0

theorem tellings_append (ms ns : List (Token × Bool)) :
    tellings (ms ++ ns) = tellings ms ++ tellings ns := by
  rw [tellings, picked_append, List.map_append]
  rfl

theorem tellings_kept (ts : List Token) : tellings (ts.map (·, true)) = [] := by
  rw [tellings, picked_other]
  rfl

namespace Twin

/-- Both runs record what is not told of tokens passed over. -/
theorem noted {e : Event} (h : Twin told s t) (he : e.isDiscarded = false) :
    Twin told (s.noted e) (t.noted e) := ⟨h.phase, h.phase', h.work.note he⟩

/-- The permissive run passes over a token. -/
theorem discard {u : Token} {us : List Token} (h : Twin told s t) :
    Twin (told ++ tellings [(u, false)]) s (t.discard u us 0) := by
  refine ⟨h.phase, h.phase', h.work.arena, h.work.operators, ?_⟩
  rw [ParserState.discard, ParserState.noted, Workspace.discards_push, h.work.discards]
  rfl

end Twin

/-- The strict run does not use up its bound. -/
theorem strict_bounded (hp : p ∈ Production.program.nested)
    (hdepth : 2 * (s.cursor.rest.length + 1) ≤ d) :
    (readN d p (.language mangle mangles false) s).1 ≠ .error .exhausted := by
  have hrank : rank p = 0 := by
    revert p
    decide
  have hsafe : Safe False .any (.language mangle mangles false) (s.cursor.rest.length + 1)
      (readN d p) :=
    readN_safe (fun _ => trivial) (keepsArena_of_builtin rfl) False.elim d _ p (by omega)
  exact (hsafe s ⟨trivial, fun _ _ => trivial⟩ False.elim (Nat.lt_succ_self _)).bounded

/-- What the permissive run reads in a round the strict one reads from what is kept. -/
theorem round_sift {n : Nat} {nodes : List NodeId} {u : Token} {us : List Token} (hd : d ≤ d')
    (h : Twin told s t) (hp : p ∈ Production.program.nested)
    (hrest : t.cursor.rest = u :: us) (hentered : isEntered (u :: us))
    (hone : ∀ us read, (topLevel read).filter (·.accepts (u :: us)) = [p.ruleOf read])
    (hread : readN d' p (.language mangle mangles true) (t.noted (.entered p.name u.span)) =
      (.ok id, t'))
    (hs : s.cursor.rest =
      picked true (siftN (.language mangle mangles true) (readN d') (n + 1) nodes t))
    (hdepth : 2 * (s.cursor.rest.length + 1) ≤ d) :
    ∃ (seg : List Token) (s' : ParserState),
      siftN (.language mangle mangles true) (readN d') (n + 1) nodes t =
        seg.map (·, true) ++ siftN (.language mangle mangles true) (readN d') n (nodes ++ [id]) t' ∧
      Parser.executeRound (topLevel (readN d)) nodes (.language mangle mangles false) s =
        (.ok (.more (nodes ++ [id])), s') ∧
      s'.cursor.rest =
        picked true (siftN (.language mangle mangles true) (readN d') n (nodes ++ [id]) t') ∧
      s'.cursor.rest.length < s.cursor.rest.length ∧
      t'.cursor.rest.length < t.cursor.rest.length ∧ Twin told s' t' := by
  obtain ⟨seg, hsome, hpasses, hclosing⟩ := topLevel_closes rfl hp hread
  have hseg : t.cursor.rest = seg ++ t'.cursor.rest := hpasses.ahead
  have hsift : siftN (.language mangle mangles true) (readN d') (n + 1) nodes t =
      seg.map (·, true) ++ siftN (.language mangle mangles true) (readN d') n (nodes ++ [id]) t' :=
    siftN_read hrest hentered (hone us _) hread (hrest.symm.trans hseg)
  have hbounded : (readN d p (.language mangle mangles false)
      (s.noted (.entered p.name u.span))).1 ≠ .error .exhausted := strict_bounded hp hdepth
  rw [hsift, picked_append, picked_same] at hs
  obtain ⟨s', hread', hs', h'⟩ := read_fenced hd hp (h.noted rfl) hread hseg hclosing hs
    (siftN_keep_le n _ t') hbounded
  -- Something was read, so that both runs stand before the same token.
  obtain ⟨v, rest, rfl⟩ := List.exists_cons_of_ne_nil hsome
  obtain ⟨rfl, -⟩ := List.cons.inj (hrest.symm.trans hseg)
  refine ⟨_, s', hsift, ?_, hs', ?_, hpasses.lt hsome, h'⟩
  · rw [Parser.executeRound_read hs (hone _ _) hread']
    rfl
  · rw [hs, hs', List.length_append]
    exact Nat.lt_add_of_pos_left (Nat.succ_pos _)

variable (mangle mangles) in
/-- The strict loop over what is kept ends as the permissive one does. -/
theorem loopN_sift (hd : d ≤ d') (n n' : Nat) (nodes : List NodeId) (told : List Event)
    (s t : ParserState) (h : Twin told s t) (hn : t.cursor.rest.length < n)
    (hs : s.cursor.rest =
      picked true (siftN (.language mangle mangles true) (readN d') n nodes t))
    (hn' : s.cursor.rest.length < n') (hdepth : 2 * (s.cursor.rest.length + 1) ≤ d) :
    LoopEnds
      (told ++ tellings (siftN (.language mangle mangles true) (readN d') n nodes t))
      (Parser.loopN (Parser.executeRound (topLevel (readN d))) n' nodes
        (.language mangle mangles false) s)
      (Parser.loopN (Parser.executeRound (topLevel (readN d'))) n nodes
        (.language mangle mangles true) t) := by
  induction n generalizing n' nodes told s t with
  | zero => exact absurd hn (Nat.not_lt_zero _)
  | succ n ih =>
    obtain ⟨n', rfl⟩ : ∃ k, n' = k + 1 := Nat.exists_eq_succ_of_ne_zero (by omega)
    cases hrest : t.cursor.rest with
    | nil =>
      rw [siftN_nil hrest] at hs ⊢
      rw [Parser.loopN_run_done (Parser.executeRound_nil hrest),
        Parser.loopN_run_done (Parser.executeRound_nil hs)]
      exact .done ((List.append_nil told).symm ▸ h)
    | cons u us =>
      cases hentered : isEntered (u :: us) with
      | false =>
        -- The token is passed over, and the strict run has no round for it.
        rw [siftN_dropped rfl hrest hentered] at hs ⊢
        rw [Parser.loopN_run_more (executeRound_dropped rfl hrest hentered)]
        rw [hrest, List.length_cons] at hn
        have hlt : us.length < n := Nat.lt_of_succ_lt_succ hn
        have hends := ih (n' + 1) nodes _ s (t.discard u us 0) h.discard hlt hs hn' hdepth
        rw [List.append_assoc, ← tellings_append] at hends
        exact hends
      | true =>
        obtain ⟨p, hp, hone⟩ := exists_of_isEntered hentered
        rcases hread : readN d' p (.language mangle mangles true)
          (t.noted (.entered p.name u.span)) with ⟨e | id, t'⟩
        · rw [siftN_failed hrest (hone us _) hread, picked_same] at hs
          obtain ⟨s', hread', htold⟩ := failure_fenced hd hp (h.noted rfl) hread hs
            (hrest ▸ List.cons_ne_nil u us) (strict_bounded hp hdepth)
          rw [siftN_failed hrest (hone us _) hread, tellings_kept, List.append_nil,
            Parser.loopN_run_stopped (Parser.executeRound_read hrest (hone us _) hread),
            Parser.loopN_run_stopped (Parser.executeRound_read (hs.trans hrest) (hone us _) hread')]
          exact .stopped htold
        · obtain ⟨seg, s', hsift, hround, hs', hfewer, hshorter, h'⟩ :=
            round_sift hd h hp hrest hentered hone hread hs hdepth
          have hends := ih n' (nodes ++ [id]) told s' t' h' (by omega) hs' (by omega) (by omega)
          rw [hsift, tellings_append, tellings_kept, List.nil_append,
            Parser.loopN_run_more (Parser.executeRound_read hrest (hone us _) hread),
            Parser.loopN_run_more hround]
          exact hends

/-! ## What a strict run accepts -/

/-- Apart from the switch the two runs are given the same. -/
instance : (beside (.language mangle mangles false) (.language mangle mangles true) False).Lawful :=
  beside_lawful False rfl rfl

/-- Below the top level the switch does not matter. -/
theorem readN_permissive (hp : p ∈ Production.program.nested) (s : ParserState) :
    readN d p (.language mangle mangles true) s = readN d p (.language mangle mangles false) s := by
  have hbetween : (beside (.language mangle mangles false) (.language mangle mangles true)
      False).Between s.phase (readN d p) (readN d p) :=
    readN_between (.inl rfl) (.inl (Production.ne_program_of_nested .program p hp))
  exact ((hbetween 0 false).same_of_beside.resolve_right fun h => h.1).1.symm

/-- Where the strict loop succeeds the permissive one does the same. -/
theorem loopN_permissive (n : Nat) (nodes nodes' : List NodeId) (s s' : ParserState)
    (hrun : Parser.loopN (Parser.executeRound (topLevel (readN d))) n nodes
      (.language mangle mangles false) s = (.ok nodes', s')) :
    Parser.loopN (Parser.executeRound (topLevel (readN d))) n nodes
      (.language mangle mangles true) s = (.ok nodes', s') := by
  induction n generalizing nodes s with
  | zero => cases hrun
  | succ n ih =>
    cases hrest : s.cursor.rest with
    | nil =>
      rw [Parser.loopN_run_done (Parser.executeRound_nil hrest)] at hrun ⊢
      exact hrun
    | cons u us =>
      cases hentered : isEntered (u :: us) with
      | false =>
        obtain ⟨_, s₁, hrefuse⟩ : ∃ e s₁, Parser.executeRound (topLevel (readN d)) nodes
            (.language mangle mangles false) s = (.error (.failed e), s₁) :=
          Parser.executeRound_refuse rfl hrest (not_singleton_of_not_isEntered hentered)
        rw [Parser.loopN_run_stopped hrefuse] at hrun
        cases hrun
      | true =>
        obtain ⟨p, hp, hone⟩ := exists_of_isEntered hentered
        rcases hread : readN d p (.language mangle mangles false)
          (s.noted (.entered p.name u.span)) with ⟨e | id, s₁⟩
        · rw [Parser.loopN_run_stopped (Parser.executeRound_read hrest (hone us _) hread)] at hrun
          cases hrun
        · rw [Parser.loopN_run_more (Parser.executeRound_read hrest (hone us _) hread)] at hrun
          have hread' := (readN_permissive hp _).trans hread
          rw [Parser.loopN_run_more (Parser.executeRound_read hrest (hone us _) hread')]
          exact ih (nodes ++ [id]) s₁ hrun

/-- What is done with the nodes of a program does not depend on the switch. -/
theorem finish_permissive (start : Token) (nodes : List NodeId) (s : ParserState) :
    finish start nodes (.language mangle mangles true) s =
      finish start nodes (.language mangle mangles false) s := by
  have hfinish : (beside (.language mangle mangles false) (.language mangle mangles true)
      False).Tandem s.phase .ahead (finish start nodes) (finish start nodes) fun _ => .ahead :=
    Tandem.atArena.bind fun parts => Tandem.alloc.bind fun id =>
      (Strict.tagAll id parts.1).bind fun _ => .pure rfl
  exact (hfinish.same_of_beside.resolve_right fun h => h.1).1.symm

/-- A program that a strict run accepts is read no differently by a permissive one. -/
theorem program_permissive {root : NodeId} (tokens : List Token) (table : OperatorTable)
    (hstrict : (Production.program.parse (.language mangle mangles false)
      (.start tokens table)).1 = .ok root) :
    Production.program.parse (.language mangle mangles true) (.start tokens table) =
      Production.program.parse (.language mangle mangles false) (.start tokens table) := by
  rw [program_parse_run] at hstrict
  rw [program_parse_run, program_parse_run]
  rcases hloop : Parser.loopN (Parser.executeRound (topLevel (readN (4 * tokens.length + 7))))
    (tokens.length + 1) [] (.language mangle mangles false) (.start tokens table)
    with ⟨e | nodes, s₁⟩
  · rw [program_stopped hloop] at hstrict
    cases hstrict
  · rw [program_read (loopN_permissive _ _ _ _ _ hloop), program_read hloop, finish_permissive]

/-! ## Programs -/

/-- Two runs come to the same: a program, with arenas that differ at most in the token of its node,
which is `token` in the second; or the same failure. -/
inductive SameOutcome (token : Token) :
    Except Stop NodeId × ParserState → Except Stop NodeId × ParserState → Prop
  | read {root : NodeId} {s t : ParserState}
      (arena : t.work.arena = s.work.arena.setToken root token)
      (operators : s.work.operators = t.work.operators) :
      SameOutcome token (.ok root, s) (.ok root, t)
  | failed {d : Diagnostic} {s t : ParserState} :
      SameOutcome token (.error (.failed d), s) (.error (.failed d), t)

theorem SameOutcome.of_program {token : Token} {r r' : Except Stop NodeId × ParserState}
    (h : SameProgram token told r r') (hbounded : r'.1 ≠ .error .exhausted) :
    SameOutcome token r r' := by
  obtain ⟨r, s⟩ := r
  obtain ⟨r', t⟩ := r'
  obtain ⟨rfl, -, hwork⟩ := h
  rcases r with e | root
  · cases e with
    | exhausted => exact absurd rfl hbounded
    | failed d => exact .failed
  · have hends := hwork root rfl
    exact .read hends.arena hends.operators

variable (mangle mangles) in
/-- A program over what is kept ends as the permissive run does, which tells of each token that it
passes over. -/
theorem program_sift (tokens : List Token) (table : OperatorTable) :
    SameProgram (Cursor.start tokens).startToken
      (tellings (sift (.language mangle mangles true) tokens table))
      (Production.program.parse (.language mangle mangles false)
        (.start (picked true (sift (.language mangle mangles true) tokens table)) table))
      (Production.program.parse (.language mangle mangles true) (.start tokens table)) := by
  set kept := picked true (sift (.language mangle mangles true) tokens table) with hkept
  have hfewer : kept.length ≤ tokens.length := siftN_keep_le _ [] (.start tokens table)
  have hstart : Twin [] (.start kept table) (.start tokens table) := ⟨rfl, rfl, rfl, rfl, rfl⟩
  have hdepth : 4 * kept.length + 7 ≤ 4 * tokens.length + 7 := by omega
  have hloop := loopN_sift mangle mangles hdepth (tokens.length + 1) (kept.length + 1) [] []
    (.start kept table) (.start tokens table) hstart (Nat.lt_succ_self _) hkept
    (Nat.lt_succ_self _) (show 2 * (kept.length + 1) ≤ 4 * kept.length + 7 by omega)
  rw [List.nil_append] at hloop
  rw [program_parse_run, program_parse_run]
  generalize hrun : Parser.loopN (Parser.executeRound (topLevel (readN (4 * kept.length + 7))))
    (kept.length + 1) [] (.language mangle mangles false) (.start kept table) = r at hloop
  generalize hrun' : Parser.loopN (Parser.executeRound (topLevel (readN (4 * tokens.length + 7))))
    (tokens.length + 1) [] (.language mangle mangles true) (.start tokens table) = r' at hloop
  cases hloop with
  | done h =>
    rw [program_read hrun, program_read hrun']
    exact finish_same h.work
  | stopped h =>
    rw [program_stopped hrun, program_stopped hrun']
    exact .stopped h

/-- A permissive run reads of any tokens what a strict run reads of those that it keeps, or fails as
that does, and tells of each of the others.  What a strict run accepts is read no differently. -/
theorem Grammar.permissive_reads_kept (mangle : String → String) (mangles : Bool)
    (tokens : List Token) (table : OperatorTable) :
    let strict := Production.program.parse (.language mangle mangles false)
    let permissive := Production.program.parse (.language mangle mangles true)
    let marked := sift (.language mangle mangles true) tokens table
    marked.map (·.1) = tokens ∧
    (permissive (.start tokens table)).2.work.discards = tellings marked ∧
    SameOutcome (Cursor.start tokens).startToken (strict (.start (picked true marked) table))
      (permissive (.start tokens table)) ∧
    ∀ root, (strict (.start tokens table)).1 = .ok root →
      permissive (.start tokens table) = strict (.start tokens table) := by
  intro strict permissive marked
  have hsame := program_sift mangle mangles tokens table
  have hbounded : (permissive (.start tokens table)).1 ≠ .error .exhausted :=
    parse_bounded (keepsArena_of_builtin rfl) .program _
  exact ⟨siftN_tokens _ [] (.start tokens table), hsame.discards, .of_program hsame hbounded,
    fun root hstrict => program_permissive tokens table hstrict⟩

/-- A name in front of an empty API is passed over, and the API alone is read no differently. -/
theorem Grammar.permissive_reads_kept_api :
    let strict := Production.program.parse (.language (fun text => text) false false)
    let permissive := Production.program.parse (.language (fun text => text) false true)
    let name : Token := ⟨.identifier, "x", .start⟩
    let api : List Token := [⟨.keyword, "api", .start⟩, ⟨.typeIdentifier, "A", .start⟩,
      ⟨.lbrace, "\x7b", .start⟩, ⟨.rbrace, "\x7d", .start⟩]
    SameOutcome name (strict (.start api .builtin)) (permissive (.start (name :: api) .builtin)) ∧
    (permissive (.start (name :: api) .builtin)).2.work.discards = [.discarded "x" .start 0] ∧
    (strict (.start api .builtin)).1 = .ok ⟨2⟩ ∧
    permissive (.start api .builtin) = strict (.start api .builtin) := by
  intro strict permissive name api
  have hsplit := permissive_reads_kept (fun text => text) false (name :: api) .builtin
  have hwhole := permissive_reads_kept (fun text => text) false api .builtin
  dsimp only at hsplit hwhole
  have hflags : (sift (.language (fun text => text) false true) (name :: api) .builtin).map (·.2) =
      false :: api.map fun _ => true := by
    dsimp only [name, api]
    decide +kernel
  have hsift : sift (.language (fun text => text) false true) (name :: api) .builtin =
      (name, false) :: api.map (·, true) := by
    rw [← List.zip_unzip (sift _ _ _), List.unzip_eq_map, hsplit.1, hflags]
    rfl
  have hkept : picked true ((name, false) :: api.map (·, true)) = api := rfl
  have htold : tellings ((name, false) :: api.map (·, true)) = [.discarded "x" .start 0] := rfl
  have hread : (strict (.start api .builtin)).1 = .ok ⟨2⟩ := by
    dsimp only [strict, api]
    decide +kernel
  rw [hsift, hkept, htold] at hsplit
  dsimp only [strict, permissive] at hread ⊢
  exact ⟨hsplit.2.2.1, hsplit.2.1, hread, hwhole.2.2.2 ⟨2⟩ hread⟩

end ApiSyntax
