/-
  ApiSyntax/Proofs/Parser/Complete.lean --- loops, lists and choices accept their phrases.

  A loop accepts a sequence round by round; its bound is the number of tokens that remain,
  and every round but the last passes one.  A choice accepts what the first rule accepts
  whose trigger does: later rules are not tried, and earlier ones are not asked.
-/
import ApiSyntax.Proofs.Parser.Accepts

set_option autoImplicit false

namespace ApiSyntax

open ApiSyntax.Language

variable {S : Setting} {α β γ : Type} {env : ParserEnv} {s : ParserState}
  {seg rest mid : List Token}

namespace Parser

/-! ## Loops -/

section Loop

/-- The loop goes on. -/
def Continues (J : β → ParserState → Prop) : Round β γ → ParserState → Prop
  | .more y, s => J y s
  | .done _, _ => False

/-- The loop ends. -/
def Ends (R : γ → ParserState → Prop) : Round β γ → ParserState → Prop
  | .more _, _ => False
  | .done c, s => R c s

variable {round : β → Parser (Round β γ)} {fuel : Nat} {x : β} {R : γ → ParserState → Prop}

theorem loopN_more {J : β → ParserState → Prop}
    (hround : Accepts S (round x) env s mid (Continues J))
    (hnext : ∀ y s', S.Fits s' → s'.cursor.rest = mid → J y s' →
      Accepts S (loopN round fuel y) env s' rest R) :
    Accepts S (loopN round (fuel + 1) x) env s rest R := by
  rw [loopN]
  refine hround.bind fun r s' hs' hrest hr => ?_
  cases r with
  | more y => exact hnext y s' hs' hrest hr
  | done c => exact hr.elim

theorem loopN_done (hround : Accepts S (round x) env s rest (Ends R)) :
    Accepts S (loopN round (fuel + 1) x) env s rest R := by
  rw [loopN]
  refine hround.bind fun r s' hs' hrest hr => ?_
  cases r with
  | more y => exact hr.elim
  | done c => exact .pure hs' hrest hr

theorem loop_accepts (h : Accepts S (loopN round (s.cursor.rest.length + 1) x) env s rest R) :
    Accepts S (loop round x) env s rest R := h

/-- A loop over phrases one after another: what holds behind them holds ahead of them, if every
round hands it back. -/
theorem loopN_induct {G : Phrase} {ts : List Tree} {F : List Token → Prop} {n k : Nat}
    {J : β → Prop} {tail : List Token} {W : Nat → β → ParserState → Prop} (h : Repeated G seg ts)
    (hn : seg.length ≤ n) (hsome : ∀ seg t, G seg t → seg ≠ [])
    (hstart : ∀ seg t rest, G seg t → seg.length ≤ n → F rest → F (seg ++ rest)) (htail : F tail)
    (hmore : ∀ x s seg t rest, G seg t → seg.length ≤ n → S.Fits s →
      s.cursor.rest = seg ++ rest → F rest → J x →
        Accepts S (round x) env s rest (Continues fun y _ => J y))
    (hround : ∀ fuel x s mid, Accepts S (round x) env s mid (Continues fun y _ => J y) →
      (∀ y s', S.Fits s' → s'.cursor.rest = mid → J y → W fuel y s') → W (fuel + 1) x s)
    (hend : ∀ x s fuel, S.Fits s → s.cursor.rest = tail → k ≤ fuel → J x → W fuel x s)
    (hs : S.Fits s) (hrest : s.cursor.rest = seg ++ tail) (hfuel : seg.length + k ≤ fuel)
    (hJ : J x) : W fuel x s := by
  induction h generalizing s x fuel with
  | none => exact hend x s fuel hs hrest (by simpa using hfuel) hJ
  | @some seg others t ts first hothers ih =>
    rw [List.length_append] at hn hfuel
    have hpos : 0 < seg.length := List.length_pos_iff.mpr (hsome seg t first)
    obtain ⟨fuel, rfl⟩ : ∃ m, fuel = m + 1 := ⟨fuel - 1, by omega⟩
    rw [List.append_assoc] at hrest
    have hnext : F (others ++ tail) := by
      have hothers' : others.length ≤ n := by omega
      clear ih hfuel hrest hn
      induction hothers with
      | none => exact htail
      | some first' _ ih =>
        rw [List.length_append] at hothers'
        rw [List.append_assoc]
        exact hstart _ _ _ first' (by omega) (ih (by omega))
    refine hround fuel x s _ (hmore x s seg t _ first (by omega) hs hrest hnext hJ)
      fun y s' hs' hrest' hy => ?_
    exact ih (by omega) hs' hrest' (by omega) hy

/-- A loop over phrases one after another, and then what comes behind them. -/
theorem loopN_repeated {G : Phrase} {ts : List Tree} {F : List Token → Prop} {n k : Nat}
    {J : β → Prop} {tail : List Token} (h : Repeated G seg ts) (hn : seg.length ≤ n)
    (hsome : ∀ seg t, G seg t → seg ≠ [])
    (hstart : ∀ seg t rest, G seg t → seg.length ≤ n → F rest → F (seg ++ rest)) (htail : F tail)
    (hmore : ∀ x s seg t rest, G seg t → seg.length ≤ n → S.Fits s →
      s.cursor.rest = seg ++ rest → F rest → J x →
        Accepts S (round x) env s rest (Continues fun y _ => J y))
    (hend : ∀ x s fuel, S.Fits s → s.cursor.rest = tail → k ≤ fuel → J x →
      Accepts S (loopN round fuel x) env s rest R)
    (hs : S.Fits s) (hrest : s.cursor.rest = seg ++ tail) (hfuel : seg.length + k ≤ fuel)
    (hJ : J x) : Accepts S (loopN round fuel x) env s rest R :=
  loopN_induct (W := fun fuel x s => Accepts S (loopN round fuel x) env s rest R) h hn hsome hstart
    htail hmore (fun _ _ _ _ => loopN_more) hend hs hrest hfuel hJ

end Loop

/-! ## Lists -/

section List

variable {element : Parser NodeId} {G : Phrase} {n : Nat} {F : List Token → Prop}

/-- One round of a list: a comma and an element, or the end. -/
def listRound (element : Parser NodeId) (items : List NodeId) :
    Parser (Round (List NodeId) (List NodeId)) := do
  if ← check .comma then
    let _ ← consume
    let item ← element
    return .more (items ++ [item])
  else return .done items

theorem delimited_eq (element : Parser NodeId) :
    delimited element .comma = (do
      let first ← element
      loop (listRound element) [first]) := rfl

theorem listRound_done {items : List NodeId} (hs : S.Fits s) (hrest : s.cursor.rest = rest)
    (hstop : Stops [.comma] rest) :
    Accepts S (listRound element items) env s rest (Ends AnyResult) := by
  have hcheck : s.cursor.check .comma = false := (hrest ▸ hstop).check List.mem_cons_self
  exact .check hcheck (.pure hs hrest trivial)

theorem listRound_more {items : List NodeId} {comma : Token} {t : Tree}
    (helement : Complete S env element G n F) (ht : G seg t) (hn : seg.length ≤ n)
    (hs : S.Fits s) (hcomma : comma.is .comma) (hrest : s.cursor.rest = comma :: (seg ++ rest))
    (hF : F rest) :
    Accepts S (listRound element items) env s rest (Continues AnyResult) := by
  refine .check (check_of_rest hrest hcomma) ?_
  refine (consume_accepts hs hrest).bind fun u s₁ hs₁ hrest₁ _ => ?_
  refine (helement seg t ht hn s₁ rest hs₁ hrest₁ hF).bind fun item s₂ hs₂ hrest₂ _ => ?_
  exact .pure hs₂ hrest₂ trivial

/-- The rest of a list, from a comma on. -/
theorem loopN_separated {ts : List Tree} {items : List NodeId} {comma : Token} {fuel : Nat}
    (helement : Complete S env element G n F) (hF : ∀ t rest, t.is .comma → F (t :: rest))
    (h : Separated G seg ts) (hn : seg.length ≤ n) (hcomma : comma.is .comma)
    (hend : F rest) (hstop : Stops [.comma] rest) (hs : S.Fits s)
    (hrest : s.cursor.rest = comma :: (seg ++ rest)) (hfuel : seg.length + 2 ≤ fuel) :
    Accepts S (loopN (listRound element) fuel items) env s rest AnyResult := by
  induction h generalizing s items comma fuel with
  | @one seg t phrase =>
    obtain ⟨fuel, rfl⟩ : ∃ m, fuel = m + 2 := ⟨fuel - 2, by omega⟩
    refine loopN_more (listRound_more helement phrase hn hs hcomma hrest hend) ?_
    intro items' s' hs' hrest' _
    exact loopN_done (listRound_done hs' hrest' hstop)
  | @more seg others comma' t ts first hcomma' hothers ih =>
    rw [List.length_append, List.length_cons] at hn hfuel
    obtain ⟨fuel, rfl⟩ : ∃ m, fuel = m + 1 := ⟨fuel - 1, by omega⟩
    have hsplit : s.cursor.rest = comma :: (seg ++ (comma' :: (others ++ rest))) := by
      rw [hrest, List.append_assoc, List.cons_append]
    refine loopN_more (listRound_more helement first (by omega) hs hcomma hsplit (hF _ _ hcomma')) ?_
    intro items' s' hs' hrest' _
    exact ih (by omega) hcomma' hs' hrest' (by omega)

theorem delimited_complete (helement : Complete S env element G n F)
    (hF : ∀ t rest, t.is .comma → F (t :: rest)) :
    Complete S env (delimited element .comma) (Separated G) n
      fun rest => F rest ∧ Stops [.comma] rest := by
  intro seg ts h hn s rest hs hrest hend
  obtain ⟨hend, hstop⟩ := hend
  rw [delimited_eq]
  cases h with
  | one phrase =>
    refine (helement _ _ phrase hn s rest hs hrest hend).bind fun item s' hs' hrest' _ => ?_
    exact loop_accepts (loopN_done (listRound_done hs' hrest' hstop))
  | @more seg others comma t ts first hcomma hothers =>
    rw [List.length_append, List.length_cons] at hn
    have hsplit : s.cursor.rest = seg ++ (comma :: (others ++ rest)) := by
      rw [hrest, List.append_assoc, List.cons_append]
    refine (helement _ _ first (by omega) s _ hs hsplit (hF _ _ hcomma)).bind
      fun item s' hs' hrest' _ => ?_
    refine loop_accepts (loopN_separated helement hF hothers (by omega) hcomma hend hstop hs' hrest' ?_)
    rw [hrest', List.length_cons, List.length_append]
    omega

/-- A list between two tokens, of elements that do not start with the closing one. -/
theorem parenthesizedList_complete {opening closing : TokenKind}
    (helement : Complete S env element G n F)
    (hF : ∀ t rest, t.is .comma ∨ t.is closing → F (t :: rest))
    {kinds : List TokenKind} (hclosing : closing.same .comma = false) (hstart : Starts kinds G)
    (hapart : ∀ kind ∈ kinds, kind.same closing = false) :
    Complete S env (parenthesizedList opening closing element .comma)
      (Enclosed opening closing G) (n + 2) fun _ => True := by
  intro seg ts h hn s rest hs hrest _
  rw [parenthesizedList]
  cases h with
  | @none l r hl hr =>
    refine (expect_accepts hs hrest hl).bind fun u s₁ hs₁ hrest₁ _ => ?_
    refine .check (check_of_rest hrest₁ hr) ?_
    refine (consume_accepts hs₁ hrest₁).bind fun u s₂ hs₂ hrest₂ _ => ?_
    exact .pure hs₂ hrest₂ trivial
  | @some l r seg ts hl items hr =>
    rw [List.length_cons, List.length_append, List.length_singleton] at hn
    have hsplit : s.cursor.rest = l :: (seg ++ (r :: rest)) := by
      rw [hrest, List.cons_append, List.append_assoc, List.singleton_append]
    refine (expect_accepts hs hsplit hl).bind fun u s₁ hs₁ hrest₁ _ => ?_
    have hfirst : Stops [closing] (seg ++ (r :: rest)) := by
      refine hstart.separated.stops items fun kind hkind other hother => ?_
      rw [List.mem_singleton.mp hother]
      exact hapart kind hkind
    have hopen : s₁.cursor.check closing = false :=
      (hrest₁ ▸ hfirst).check List.mem_cons_self
    have hstop : Stops [.comma] (r :: rest) := by
      refine stops_of_is hr fun other hother => ?_
      rw [List.mem_singleton.mp hother]
      exact hclosing
    have hlist := delimited_complete helement fun t rest ht => hF t rest (.inl ht)
    refine .check hopen ?_
    refine (hlist seg ts items (by omega) s₁ _ hs₁ hrest₁ ⟨hF _ _ (.inr hr), hstop⟩).bind
      fun ids s₂ hs₂ hrest₂ _ => ?_
    refine (expect_accepts hs₂ hrest₂ hr).bind fun u s₃ hs₃ hrest₃ _ => ?_
    exact .pure hs₃ hrest₃ trivial

end List

/-! ## Choices -/

section Choice

variable {read : Production → Parser NodeId} {options : List Production} {expected : String}
  {p : Production} {P : NodeId → ParserState → Prop}

/-- The trigger of the production accepts. -/
def applies (tokens : List Token) (p : Production) : Bool :=
  match p.trigger tokens with
  | .ok b => b
  | .error _ => false

/-- A choice accepts what its first production accepts whose trigger does. -/
theorem choice_accepts (hfind : options.find? (applies s.cursor.rest) = some p)
    (h : Accepts S (read p) env s rest P) : Accepts S (choice read options expected) env s rest P := by
  obtain ⟨id, s', hrun, hrest, hs', hP⟩ := h
  refine ⟨id, s', ?_, hrest, hs', hP⟩
  have hcandidates : ∃ others, (options.map (Production.ruleOf read)).filter
      (·.accepts s.cursor.rest) = Production.ruleOf read p :: others := by
    rw [List.filter_map]
    have hhead : (options.filter (applies s.cursor.rest)).head? = some p := by
      rw [List.head?_filter, hfind]
    obtain ⟨others, hothers⟩ := List.head?_eq_some_iff.mp hhead
    refine ⟨others.map (Production.ruleOf read), ?_⟩
    have hsame : ((·.accepts s.cursor.rest) ∘ Production.ruleOf read) = applies s.cursor.rest := rfl
    rw [hsame, hothers, List.map_cons]
  obtain ⟨others, hothers⟩ := hcandidates
  have hfirst : (Production.ruleOf read p).parse env s = (.ok id, s') := hrun
  rw [choice, dispatch, remaining_bind, hothers]
  dsimp only
  rw [alternation, attemptAny, bind_run, Action.bind_run, attemptFrom]
  simp only [hfirst]
  rfl

end Choice

end Parser

end ApiSyntax
