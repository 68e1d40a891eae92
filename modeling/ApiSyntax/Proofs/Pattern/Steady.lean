/-
  ApiSyntax/Proofs/Pattern/Steady.lean --- steps of a reader, with a bracket behind the text.

  A step of the reader that succeeds does the same when a closing bracket stands behind the
  text (`Steady`): it looks for no such bracket, and what it passes has its end before.
  Where two steps are not the same, `Carries` says what the second one comes to.
-/
import ApiSyntax.Pattern.Reader
import Mathlib.Data.List.Basic
import Mathlib.Data.List.TakeWhile

set_option autoImplicit false

namespace ApiSyntax

namespace Pattern

/-! ## A bracket behind a text -/

theorem isPrefixOf_closed {text : List Char} (htext : ')' ∉ text) (rest : List Char) :
    text.isPrefixOf (rest ++ [')']) = text.isPrefixOf rest := by
  rw [Bool.eq_iff_iff, List.isPrefixOf_iff_prefix, List.isPrefixOf_iff_prefix,
    List.prefix_concat_iff]
  constructor
  · rintro (rfl | h)
    · exact absurd (by simp) htext
    · exact h
  · exact .inr

theorem takeWhile_closed {p : Char → Bool} (hp : p ')' = false) (rest : List Char) :
    (rest ++ [')']).takeWhile p = rest.takeWhile p := by
  induction rest with
  | nil => simp [hp]
  | cons c rest ih => simp [List.takeWhile_cons, ih]

theorem dropWhile_closed {p : Char → Bool} (hp : p ')' = false) (rest : List Char) :
    (rest ++ [')']).dropWhile p = rest.dropWhile p ++ [')'] := by
  induction rest with
  | nil => simp [hp]
  | cons c rest ih =>
    rw [List.cons_append, List.dropWhile_cons, List.dropWhile_cons, ih]
    split <;> rfl

theorem head?_closed {c : Char} (hc : c ≠ ')') (rest : List Char) :
    (rest ++ [')']).head? = some c ↔ rest.head? = some c := by
  cases rest with
  | nil => simpa using hc.symm
  | cons d rest => simp

/-- The state with a closing bracket behind the text. -/
def ReadState.closed (s : ReadState) : ReadState := { s with rest := s.rest ++ [')'] }

variable {α β γ : Type} {s s' : ReadState}

/-! ## Steps that do the same with a bracket behind the text -/

/-- Where the first step succeeds, the second one comes to what `R` says with a closing bracket
behind the text. -/
def Carries (x : Reading α) (y : Reading β)
    (R : α → ReadState → Except PatternFault β × ReadState → Prop) (s : ReadState) : Prop :=
  ∀ a s', x s = (.ok a, s') → R a s' (y s.closed)

/-- The same result, with the bracket still behind the text. -/
def Same (a : α) (s' : ReadState) (r : Except PatternFault α × ReadState) : Prop :=
  r = (.ok a, s'.closed)

/-- Where the step succeeds it does the same with a closing bracket behind the text. -/
def Steady (x : Reading α) : Prop := ∀ s, Carries x x Same s

variable {R : β → ReadState → Except PatternFault γ × ReadState → Prop}

theorem Carries.fail {y : Reading γ} {fault : PatternFault} : Carries (.fail fault) y R s :=
  fun _ _ h => nomatch h

/-- A step, then what follows from its result.  Where the bracket makes a difference to the step,
what follows must fail. -/
theorem Carries.bind_or {x : Reading α} {f : α → Reading β} {g : α → Reading γ}
    (h : ∀ a s', x s = (.ok a, s') →
      (x s.closed = (.ok a, s'.closed) ∧ Carries (f a) (g a) R s') ∨
        ∀ b s'', f a s' ≠ (.ok b, s'')) :
    Carries (x >>= f) (x >>= g) R s := by
  intro b s' hrun
  rw [Action.bind_run] at hrun ⊢
  cases hx : x s with
  | mk result s₁ =>
    rw [hx] at hrun
    cases result with
    | error fault => cases hrun
    | ok a =>
      obtain ⟨hclosed, hf⟩ | hfails := h a s₁ hx
      · rw [hclosed]
        exact hf b s' hrun
      · exact absurd hrun (hfails b s')

/-- A steady step, then what follows from its result. -/
theorem Carries.bind {x : Reading α} {f : α → Reading β} {g : α → Reading γ} (hx : Steady x)
    (hf : ∀ a s', x s = (.ok a, s') → Carries (f a) (g a) R s') :
    Carries (x >>= f) (x >>= g) R s :=
  .bind_or fun a s' hrun => .inl ⟨hx s a s' hrun, hf a s' hrun⟩

theorem ahead_bind (f : List Char → Reading β) : (Pattern.ahead >>= f) s = f s.rest s := rfl

/-- Only the two runs count. -/
theorem Carries.of_runs {x x' : Reading β} {y y' : Reading γ} (hx : x s = x' s)
    (hy : y s.closed = y' s.closed) (h : Carries x' y' R s) : Carries x y R s := by
  intro b s' hrun
  rw [hy]
  exact h b s' (hx ▸ hrun)

/-- The text ahead, then what follows from it. -/
theorem Carries.ahead {f : List Char → Reading β} {g : List Char → Reading γ}
    (h : Carries (f s.rest) (g (s.rest ++ [')'])) R s) :
    Carries (Pattern.ahead >>= f) (Pattern.ahead >>= g) R s := h

namespace Steady

theorem pure (a : α) : Steady (Pure.pure a : Reading α) := by
  intro s b s' h
  cases h
  rfl

theorem fail (fault : PatternFault) : Steady (Action.fail fault : Reading α) := fun _ => .fail

theorem bind {x : Reading α} {f : α → Reading β} (hx : Steady x) (hf : ∀ a, Steady (f a)) :
    Steady (x >>= f) :=
  fun _ => .bind hx fun a s' _ => hf a s'

theorem map {x : Reading α} (f : α → β) (hx : Steady x) : Steady (f <$> x) := by
  rw [map_eq_pure_bind]
  exact bind hx fun a => pure (f a)

theorem cond {c : Prop} [Decidable c] {x y : Reading α} (hx : Steady x) (hy : Steady y) :
    Steady (if c then x else y) := by
  split
  · exact hx
  · exact hy

theorem currentFlags : Steady Pattern.currentFlags := by
  intro s flags s' h
  cases h
  rfl

theorem setFlags (flags : Flags) : Steady (Pattern.setFlags flags) := by
  intro s _ s' h
  cases h
  rfl

theorem nextOr (fault : PatternFault) : Steady (Pattern.nextOr fault) := by
  intro s c s' h
  obtain ⟨rest, names, flags⟩ := s
  cases rest with
  | nil => cases h
  | cons c rest =>
    cases h
    rfl

/-- A text without a closing bracket stands at the front or does not. -/
theorem skipIf {text : List Char} (htext : ')' ∉ text) : Steady (Pattern.skipIf text) := by
  intro s b s' h
  unfold Pattern.skipIf at h
  unfold Same Pattern.skipIf ReadState.closed
  rw [isPrefixOf_closed htext]
  split at h
  · next hprefix =>
    cases h
    rw [if_pos hprefix]
    have hlength := (List.isPrefixOf_iff_prefix.mp hprefix).length_le
    rw [List.drop_append_of_le_length hlength]
  · next hprefix =>
    cases h
    rw [if_neg hprefix]

/-- Characters are passed up to the first one outside a set that has no closing bracket. -/
theorem skipWhile {p : Char → Bool} (hp : p ')' = false) : Steady (Pattern.skipWhile p) := by
  intro s text s' h
  cases h
  unfold Same Pattern.skipWhile ReadState.closed
  rw [takeWhile_closed hp, dropWhile_closed hp]

end Steady

/-- Characters that stand ahead are passed. -/
theorem Carries.skip {n : Nat} {f : Unit → Reading β} {g : Unit → Reading γ}
    (hn : n ≤ s.rest.length) (h : Carries (f ()) (g ()) R { s with rest := s.rest.drop n }) :
    Carries (Pattern.skip n >>= f) (Pattern.skip n >>= g) R s := by
  intro b s' hrun
  have hstate : ({ s.closed with rest := s.closed.rest.drop n } : ReadState) =
      ({ s with rest := s.rest.drop n } : ReadState).closed := by
    rw [ReadState.closed, ReadState.closed, List.drop_append_of_le_length hn]
  have hstep : (Pattern.skip n >>= g) s.closed =
      g () ({ s with rest := s.rest.drop n } : ReadState).closed := by
    rw [← hstate]
    rfl
  rw [hstep]
  exact h b s' hrun

/-- Characters are passed up to one that stands ahead. -/
theorem Carries.skipWhile {p : Char → Bool} {f : List Char → Reading β} {g : List Char → Reading γ}
    (hend : s.rest.dropWhile p ≠ [])
    (h : Carries (f (s.rest.takeWhile p)) (g (s.rest.takeWhile p)) R
      { s with rest := s.rest.dropWhile p }) :
    Carries (Pattern.skipWhile p >>= f) (Pattern.skipWhile p >>= g) R s := by
  intro b s' hrun
  have hlength : (s.rest.takeWhile p).length ≠ s.rest.length := by
    intro heq
    have hsplit := congrArg List.length (List.takeWhile_append_dropWhile (p := p) (l := s.rest))
    rw [List.length_append] at hsplit
    exact hend (List.length_eq_zero_iff.mp (by omega))
  have htake : s.closed.rest.takeWhile p = s.rest.takeWhile p := by
    rw [ReadState.closed, List.takeWhile_append, if_neg hlength]
  have hdrop : s.closed.rest.dropWhile p = s.rest.dropWhile p ++ [')'] := by
    rw [ReadState.closed, List.dropWhile_append, if_neg (by simpa using hend)]
  have hstep : (Pattern.skipWhile p >>= g) s.closed = g (s.closed.rest.takeWhile p)
      { s.closed with rest := s.closed.rest.dropWhile p } := rfl
  rw [hstep, htake, hdrop]
  exact h b s' hrun

/-! ## Escapes -/

theorem charOfCode_steady (n : Nat) : Steady (charOfCode n) := .cond (.pure _) (.fail _)

theorem readFixedHex_steady (width : Nat) : Steady (readFixedHex width) := by
  intro s
  refine .ahead ?_
  by_cases hlength : (s.rest.take width).length < width
  · rw [if_pos hlength]
    exact .fail
  have hle : width ≤ s.rest.length := by
    rw [List.length_take] at hlength
    omega
  rw [List.take_append_of_le_length hle, if_neg hlength]
  split
  · exact .skip hle (charOfCode_steady _ _)
  · exact .fail

theorem readHex_steady (width : Nat) : Steady (readHex width) := by
  refine .bind (.skipIf (by decide)) fun braced => .cond ?_ (readFixedHex_steady width)
  refine .bind (.skipWhile (by decide)) fun digits => .bind (.skipIf (by decide)) fun closed => ?_
  refine .cond ?_ (.fail _)
  split
  · exact charOfCode_steady _
  · exact .fail _

/-- Where no brace follows, a word boundary is nothing else. -/
theorem readBoundary_plain (h : s.rest.head? ≠ some '\x7b') :
    readBoundary s = (.ok .wordBoundary, s) := by
  rw [readBoundary, ahead_bind]
  generalize s.rest = text at h
  split
  · simp at h
  · simp at h
  · rfl

/-- The name that narrows a word boundary, behind its opening brace. -/
theorem readBoundary_braced {c : Char} {rest : List Char} (h : s.rest = '\x7b' :: c :: rest) :
    readBoundary s = (if isPlaceNameChar c then do
      skip (1 + ((c :: rest).takeWhile isPlaceNameChar).length)
      match namedPlaces.lookup ((c :: rest).takeWhile isPlaceNameChar), ← skipIf ['\x7d'] with
      | some p, true => return p
      | _, _ => .fail .badEscape
    else return .wordBoundary : Reading Place) s := by
  rw [readBoundary, ahead_bind, h]
  rfl

theorem readBoundary_steady : Steady readBoundary := by
  intro s
  rcases hrest : s.rest with _ | ⟨c, rest⟩
  · exact .of_runs (readBoundary_plain (by simp [hrest]))
      (readBoundary_plain (by simp [ReadState.closed, hrest])) (Steady.pure Place.wordBoundary s)
  by_cases hc : c = '\x7b'
  · subst hc
    cases rest with
    | nil =>
      intro place s' hrun
      rw [readBoundary, ahead_bind, hrest] at hrun
      cases hrun
    | cons c rest =>
      have hclosed : s.closed.rest = '\x7b' :: c :: (rest ++ [')']) := by
        rw [ReadState.closed, hrest]
        rfl
      have hname : (c :: (rest ++ [')'])).takeWhile isPlaceNameChar =
          (c :: rest).takeWhile isPlaceNameChar := takeWhile_closed (by decide) (c :: rest)
      refine .of_runs (readBoundary_braced hrest) (readBoundary_braced hclosed) ?_
      rw [hname]
      split
      · refine .skip ?_ (.bind (.skipIf (by decide)) fun closed s' _ => ?_)
        · have hlength := (List.takeWhile_prefix isPlaceNameChar (l := c :: rest)).length_le
          rw [hrest, List.length_cons]
          omega
        · split
          · exact Steady.pure _ s'
          · exact .fail
      · exact Steady.pure _ s
  · exact .of_runs (readBoundary_plain (by simpa [hrest] using hc))
      (readBoundary_plain (by simpa [ReadState.closed, hrest] using hc))
      (Steady.pure Place.wordBoundary s)

theorem readEscape_steady : Steady readEscape := by
  refine .bind (.nextOr _) fun c => .cond (.fail _) (.cond (.pure _) ?_)
  split
  iterate 3 exact .map _ (readHex_steady _)
  iterate 14 exact .pure _
  · exact .map _ readBoundary_steady
  iterate 3 exact .pure _
  · exact .fail _

/-! ## Groups and repetitions -/

theorem readFlagSigns_steady : Steady readFlagSigns := by
  refine .bind (.skipWhile (by decide)) fun text => ?_
  exact .cond (.fail _) (.cond (.fail _) (.cond (.fail _) (.cond (.fail _) (.pure _))))

/-- A name has an end, so the bracket behind the text is not part of it. -/
theorem readGroupName_steady : Steady readGroupName := by
  intro s
  -- With no angle bracket ahead the reader fails.
  by_cases hend : s.rest.dropWhile (· != '>') = []
  · intro _ s' hrun
    have hfails : readGroupName s = (.error .badGroup, { s with rest := [] }) := by
      rw [readGroupName, Action.bind_run]
      unfold Pattern.skipWhile
      rw [hend]
      rfl
    rw [hfails] at hrun
    cases hrun
  · refine .skipWhile hend (.bind (.skipIf (by decide)) fun _ s₁ _ => ?_)
    refine Steady.cond (.fail _) (.cond (.fail _) ?_) s₁
    intro s _ s' hrun
    dsimp only at hrun
    unfold Same ReadState.closed
    dsimp only
    split at hrun
    · cases hrun
    · next hnew =>
      cases hrun
      rw [if_neg hnew]

theorem readGroupHead_steady : Steady readGroupHead := by
  intro s
  refine .ahead ?_
  have hlook : [['?', '='], ['?', '!'], ['?', '<', '='], ['?', '<', '!']].any
      (·.isPrefixOf (s.rest ++ [')'])) =
      [['?', '='], ['?', '!'], ['?', '<', '='], ['?', '<', '!']].any (·.isPrefixOf s.rest) := by
    simp only [List.any_cons, List.any_nil,
      isPrefixOf_closed (show ')' ∉ ['?', '='] by decide),
      isPrefixOf_closed (show ')' ∉ ['?', '!'] by decide),
      isPrefixOf_closed (show ')' ∉ ['?', '<', '='] by decide),
      isPrefixOf_closed (show ')' ∉ ['?', '<', '!'] by decide)]
  rw [hlook]
  refine Steady.cond (.fail _) ?_ s
  refine .bind (.skipIf (by decide)) fun _ => .cond (.bind readGroupName_steady fun _ => .pure _) ?_
  refine .bind (.skipIf (by decide)) fun _ => .cond (.bind readGroupName_steady fun _ => .pure _) ?_
  refine .bind (.skipIf (by decide)) fun _ => .cond ?_ (.pure _)
  refine .bind readFlagSigns_steady fun signs => .bind (.nextOr _) fun closing => ?_
  exact .cond (.fail _) (.bind .currentFlags fun _ => .bind (.setFlags _) fun _ => .pure _)

theorem readCount_steady : Steady readCount := by
  refine .bind (.skipWhile (by decide)) fun _ => .bind (.skipWhile (by decide)) fun digits =>
    .bind (.skipWhile (by decide)) fun _ => ?_
  split
  · exact .pure _
  · exact .cond (.pure _) (.fail _)

theorem readGreed_steady : Steady readGreed :=
  .bind (.skipIf (by decide)) fun _ => .bind .currentFlags fun _ => .pure _

theorem repeating_steady (top : Level) (f : Pattern → Pattern) : Steady (top.repeating f) := by
  unfold Level.repeating
  split
  · exact .pure _
  · exact .fail _

theorem readRepetition_steady (top : Level) (bounds : Nat × Option Nat) :
    Steady (readRepetition top bounds) :=
  .bind readGreed_steady fun _ => repeating_steady _ _

/-- A closing brace ahead decides which of two readers goes on. -/
theorem Carries.brace {x y : Reading β} {x' y' : Reading γ} (hx : Carries x x' R s)
    (hy : Carries y y' R s) :
    Carries (do
      match ← Pattern.ahead with
      | '\x7d' :: _ => x
      | _ => y) (do
      match ← Pattern.ahead with
      | '\x7d' :: _ => x'
      | _ => y') R s := by
  have hrun : ∀ {δ : Type} {z w : Reading δ} (s : ReadState), (do
      match ← Pattern.ahead with
      | '\x7d' :: _ => z
      | _ => w) s = if s.rest.head? = some '\x7d' then z s else w s := by
    intro δ z w s
    rw [ahead_bind]
    generalize s.rest = text
    split
    · rfl
    · next hnot =>
      rw [if_neg]
      intro h
      obtain ⟨rest, rfl⟩ := List.head?_eq_some_iff.mp h
      exact hnot rest rfl
  have hclosed : s.closed.rest.head? = some '\x7d' ↔ s.rest.head? = some '\x7d' :=
    head?_closed (by decide) s.rest
  by_cases hbrace : s.rest.head? = some '\x7d'
  · exact .of_runs ((hrun s).trans (if_pos hbrace)) ((hrun _).trans (if_pos (hclosed.mpr hbrace))) hx
  · exact .of_runs ((hrun s).trans (if_neg hbrace))
      ((hrun _).trans (if_neg fun h => hbrace (hclosed.mp h))) hy

theorem readBounds_steady : Steady readBounds := by
  unfold readBounds
  refine .bind readCount_steady fun least => ?_
  extract_lets close
  have hclose : ∀ bounds, Steady (close bounds) := by
    intro bounds
    refine .bind (.skipIf (by decide)) fun _ => .cond (.fail _) ?_
    split
    · exact .cond (.pure _) (.fail _)
    · exact .pure _
    · exact .fail _
  refine .bind (.skipIf (by decide)) fun comma => ?_
  refine .cond (fun s => ?_) (.bind (.pure _) hclose)
  refine .brace (Steady.bind (.pure _) hclose s) (Steady.bind readCount_steady (fun most => ?_) s)
  split
  · exact .bind (.pure _) hclose
  · exact .bind (.fail _) hclose

end Pattern

end ApiSyntax
