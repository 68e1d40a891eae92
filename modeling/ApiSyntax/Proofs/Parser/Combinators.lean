/-
  ApiSyntax/Proofs/Parser/Combinators.lean --- the rules for loops, lists and choices.

  A loop keeps an invariant of what was passed and made since it began.  A rule that is
  given up leaves nodes behind, and its place is taken back; so a choice comes to what
  each of its rules comes to, whichever of them were tried before.
-/
import ApiSyntax.Grammar.Production
import ApiSyntax.Proofs.Grammar.Language
import ApiSyntax.Proofs.Parser.Steps

set_option autoImplicit false

namespace ApiSyntax

open ApiSyntax.Language

variable {S : Setting} {α β γ : Type} {env : ParserEnv} {b s : ParserState} {seg : List Token}
  {ts : List Tree}

/-! ## Giving up and phases -/

/-- What an attempt comes to: nothing was passed or made if the answer is nothing. -/
def Attempted (Q : α → List Token → List Tree → Prop) :
    Option α → List Token → List Tree → Prop
  | some a, seg, ts => Q a seg ts
  | none, seg, ts => seg = [] ∧ ts = []

/-- There is one tree or none, and it is such a phrase. -/
def Maybe (G : Phrase) (id : Option NodeId) (seg : List Token) (ts : List Tree) : Prop :=
  ∃ t : Option Tree, id = t.map Tree.root ∧ ts = t.toList ∧ Optional G seg t

theorem maybe_of_attempted {G : Phrase} (id : Option NodeId) (seg : List Token) (ts : List Tree)
    (h : Attempted (One G) id seg ts) : Maybe G id seg ts := by
  cases id with
  | none =>
    obtain ⟨rfl, rfl⟩ := h
    exact ⟨none, rfl, rfl, .none⟩
  | some id =>
    obtain ⟨t, rfl, rfl, ht⟩ := h
    exact ⟨some t, rfl, rfl, .some ht⟩

namespace Parser

theorem attempt_reads {p : Parser α} {Q : α → List Token → List Tree → Prop}
    (hp : Reads S env p Q) : Reads S env (attempt p) (Attempted Q) := by
  intro s hs
  have hrun := hp s hs
  unfold attempt
  generalize p env s = r at hrun
  cases hrun with
  | done step post => exact .done step post
  | @lost e s' lost =>
    cases e with
    | failed d => exact .done (lost.back hs rfl) ⟨rfl, rfl⟩
    | exhausted => exact .lost lost

theorem inPhase_outcome {p : Parser α} {Q : α → List Token → List Tree → Prop} {inner : Phase}
    (hp : Outcome S { s with phase := inner } Q (p env { s with phase := inner })) :
    Outcome S s Q (inPhase inner p env s) := by
  unfold inPhase
  generalize p env { s with phase := inner } = r at hp
  cases hp with
  | done step post =>
    exact .done ⟨step.passes, ⟨step.fits.tables, step.fits.tokens⟩, step.arena⟩ post
  | lost lost => exact .lost ⟨lost.tables, lost.arena⟩

theorem inPhase_reads {p : Parser α} {Q : α → List Token → List Tree → Prop}
    (hp : Reads S env p Q) (inner : Phase) : Reads S env (inPhase inner p) Q :=
  fun s hs => inPhase_outcome (hp { s with phase := inner } ⟨hs.tables, hs.tokens⟩)

end Parser

/-! ## Loops -/

/-- What a round comes to: the invariant of the loop, or its result. -/
def Rounds (I : β → List Token → List Tree → Prop) (Q : γ → List Token → List Tree → Prop) :
    Parser.Round β γ → List Token → List Tree → Prop
  | .more next, seg, ts => I next seg ts
  | .done result, seg, ts => Q result seg ts

namespace Step

variable {I : β → List Token → List Tree → Prop} {Q : γ → List Token → List Tree → Prop}
  {round : β → Parser (Parser.Round β γ)}

/-- A loop whose rounds keep an invariant, seen from where the invariant is seen. -/
theorem loop (hround : ∀ x s seg ts, I x seg ts → Step S b s seg ts →
      Outcome S b (Rounds I Q) (round x env s))
    {x : β} (h : Step S b s seg ts) (hI : I x seg ts) :
    Outcome S b Q (Parser.loop round x env s) := by
  unfold Parser.loop
  generalize s.cursor.rest.length + 1 = fuel
  induction fuel generalizing x s seg ts with
  | zero => exact .exhausted h
  | succ fuel ih =>
    rw [Parser.loopN]
    refine (hround x s seg ts hI h).bind fun r s₁ seg₁ ts₁ post step => ?_
    cases r with
    | more next => exact ih step post
    | done result => exact .pure step post

end Step

namespace Parser

/-- A loop, seen from where it begins. -/
theorem loop_reads {I : β → List Token → List Tree → Prop} {Q : γ → List Token → List Tree → Prop}
    {round : β → Parser (Round β γ)} {x : β}
    (hround : ∀ b x s seg ts, I x seg ts → Step S b s seg ts →
      Outcome S b (Rounds I Q) (round x env s))
    (hI : I x [] []) : Reads S env (loop round x) Q :=
  fun s hs => (Step.refl hs).loop (hround s) hI

/-! ## Lists -/

theorem delimited_reads {element : Parser NodeId} {G : Phrase}
    (helement : Reads S env element (One G)) :
    Reads S env (delimited element .comma) (Many (Separated G)) := by
  intro s hs
  unfold delimited
  refine (Step.refl hs).next helement ?_
  intro _ s₁ seg _ hpost h₁
  obtain ⟨t, rfl, rfl, ht⟩ := hpost
  refine h₁.loop (I := Many (Separated G)) ?_ ⟨rfl, .one ht⟩
  intro _ s₂ seg₂ ts₂ hpost h₂
  obtain ⟨rfl, hitems⟩ := hpost
  rw [check_bind]
  cases hcheck : s₂.cursor.check .comma with
  | false => exact .pure h₂ ⟨rfl, hitems⟩
  | true =>
    refine h₂.consume_checked hcheck fun comma s₃ hcomma h₃ => ?_
    refine h₃.next helement ?_
    intro _ s₄ seg₄ _ hpost h₄
    obtain ⟨u, rfl, rfl, hu⟩ := hpost
    refine .pure h₄ ⟨?_, ?_⟩
    · rw [List.map_append, List.map_singleton]
    · rw [List.append_assoc]
      exact hitems.snoc hcomma hu

theorem parenthesized_reads {opening closing : TokenKind} {p : Parser NodeId} {G : Phrase}
    (hp : Reads S env p (One G)) :
    Reads S env (parenthesized opening closing p) (One fun seg t => ∃ l inner r,
      seg = l :: (inner ++ [r]) ∧ l.is opening ∧ r.is closing ∧ G inner t) := by
  intro s hs
  unfold parenthesized
  refine (Step.refl hs).token (expect_reads opening) fun l s₁ hl h₁ => ?_
  refine h₁.next hp ?_
  intro _ s₂ seg _ hpost h₂
  obtain ⟨t, rfl, rfl, ht⟩ := hpost
  refine h₂.token (expect_reads closing) fun r s₃ hr h₃ => ?_
  exact .pure h₃ ⟨t, rfl, rfl, l, seg, r, rfl, hl, hr, ht⟩

theorem parenthesizedList_reads {opening closing : TokenKind} {element : Parser NodeId}
    {G : Phrase} (helement : Reads S env element (One G)) :
    Reads S env (parenthesizedList opening closing element .comma)
      (Many (Enclosed opening closing G)) := by
  intro s hs
  unfold parenthesizedList
  refine (Step.refl hs).token (expect_reads opening) fun l s₁ hl h₁ => ?_
  rw [check_bind]
  cases hcheck : s₁.cursor.check closing with
  | true =>
    refine h₁.consume_checked hcheck fun r s₂ hr h₂ => ?_
    exact .pure h₂ ⟨rfl, .none hl hr⟩
  | false =>
    refine h₁.next (delimited_reads helement) ?_
    intro _ s₂ seg ts hpost h₂
    obtain ⟨rfl, hitems⟩ := hpost
    refine h₂.token (expect_reads closing) fun r s₃ hr h₃ => ?_
    exact .pure h₃ ⟨rfl, .some hl hitems hr⟩

/-! ## Choices -/

theorem attemptFrom_reads {propagate : Bool} {rules : List Rule} {last : Option Diagnostic}
    {Q : NodeId → List Token → List Tree → Prop} (hrules : ∀ r ∈ rules, Reads S env r.parse Q) :
    Reads S env (attemptFrom propagate rules last) (Attempted Q) := by
  intro s hs
  -- Seen from `s`: a rule that is given up takes the place back, but leaves nodes behind.
  have hall : ∀ s', s'.cursor = s.cursor → Step S s s' [] [] →
      Outcome S s (Attempted Q) (attemptFrom propagate rules last env s') := by
    induction rules generalizing last with
    | nil =>
      intro s' _ h
      cases last with
      | none => exact .pure h ⟨rfl, rfl⟩
      | some d =>
        cases propagate with
        | true => exact .lost h.lose
        | false => exact .pure h ⟨rfl, rfl⟩
    | cons r rules ih =>
      intro s' hcursor h
      have hrun := hrules r List.mem_cons_self s' h.fits
      unfold attemptFrom
      dsimp only
      generalize r.parse env s' = out at hrun
      cases hrun with
      | done step post => exact .done (h.trans step) post
      | @lost e s₁ lost =>
        cases e with
        | failed d =>
          refine ih (fun r' hr' => hrules r' (List.mem_cons_of_mem _ hr')) _ hcursor ?_
          exact h.trans (lost.back h.fits rfl)
        | exhausted => exact .lost (h.then_lost lost)
  exact hall s rfl (Step.refl hs)

theorem dispatch_reads {rules : List Rule} {expected : String}
    {Q : NodeId → List Token → List Tree → Prop} (hrules : ∀ r ∈ rules, Reads S env r.parse Q) :
    Reads S env (dispatch rules expected) Q := by
  intro s hs
  unfold dispatch
  rw [remaining_bind]
  have hsub : ∀ r ∈ rules.filter (·.accepts s.cursor.rest), Reads S env r.parse Q :=
    fun r hr => hrules r (List.mem_of_mem_filter hr)
  generalize rules.filter (·.accepts s.cursor.rest) = candidates at hsub
  cases candidates with
  | nil =>
    refine (Step.refl hs).next_result (y := peek) rfl fun t _ => ?_
    exact .fail (Step.refl hs)
  | cons r rest =>
    refine (attemptFrom_reads hsub s hs).bind fun o s₁ seg ts post step => ?_
    cases o with
    | some id => exact .pure step post
    | none => exact .lost step.lose

theorem choice_reads {read : Production → Parser NodeId} {options : List Production}
    {expected : String} {Q : NodeId → List Token → List Tree → Prop}
    (hread : ∀ p ∈ options, Reads S env (read p) Q) :
    Reads S env (choice read options expected) Q := by
  refine dispatch_reads fun r hr => ?_
  obtain ⟨p, hp, rfl⟩ := List.mem_map.mp hr
  exact hread p hp

/-! ## The top level -/

/-- Rules until no token remains.  In a strict run every token is passed by a rule. -/
theorem execute_outcome {rules : List Rule} {I : List NodeId → List Token → List Tree → Prop}
    {Q : NodeId → List Token → List Tree → Prop} (hrules : ∀ r ∈ rules, Reads S env r.parse Q)
    (hstart : I [] [] [])
    (hmore : ∀ nodes seg ts id seg' ts', I nodes seg ts → Q id seg' ts' →
      I (nodes ++ [id]) (seg ++ seg') (ts ++ ts'))
    (hskip : env.config.permissive = true →
      ∀ nodes seg ts t, I nodes seg ts → I nodes (seg ++ [t]) ts)
    (hs : S.Fits s) :
    Outcome S s (fun nodes seg ts => seg = s.cursor.rest ∧ I nodes seg ts)
      (execute rules env s) := by
  unfold execute
  refine (Step.refl hs).loop (I := I) ?_ hstart
  intro nodes s₁ seg ts hI h₁
  unfold executeRound
  rw [remaining_bind]
  have hmem : ∀ r ∈ rules.filter (·.accepts s₁.cursor.rest), r ∈ rules :=
    fun r hr => List.mem_of_mem_filter hr
  generalize rules.filter (·.accepts s₁.cursor.rest) = matching at hmem
  have hall := h₁.passes.ahead
  cases hrest : s₁.cursor.rest with
  | nil =>
    rw [hrest, List.append_nil] at hall
    exact .pure h₁ ⟨hall.symm, hI⟩
  | cons t rest =>
    rcases matching with _ | ⟨rule, _ | ⟨rule', others⟩⟩
    rotate_left
    · refine h₁.noted fun s₂ h₂ => ?_
      refine h₂.next (hrules rule (hmem rule (List.mem_singleton_self _)))
        fun id s₃ seg₃ ts₃ hid h₃ => ?_
      exact .pure h₃ (hmore _ _ _ _ _ _ hI hid)
    -- No rule or several rules apply: the token is passed over, or the run fails.
    all_goals
      dsimp only
      rw [env_bind]
      refine .cond (fun hpermissive => ?_) fun _ => .cond (fun _ => .fail h₁) fun _ => ?_
      · refine h₁.consume fun u rest' s₂ _ h₂ => ?_
        exact h₂.noted fun s₃ h₃ => .pure h₃ (hskip hpermissive _ _ _ _ hI)
      · exact h₁.noted fun s₂ h₂ => .fail h₂

end Parser

end ApiSyntax
