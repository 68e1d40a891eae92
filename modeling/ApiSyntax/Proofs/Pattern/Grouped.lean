/-
  ApiSyntax/Proofs/Pattern/Grouped.lean --- a text that is a pattern stays one in a group.

  A set is read up to the bracket that closes it, so one more bracket behind the text makes
  no difference to it; nor does it to any other piece of a pattern.  Where the text ends,
  the bracket closes the group around it: a text that is a pattern by itself is the same
  pattern in a group (`ofText_grouped`).  A text that is no pattern by itself may close the
  group and go on behind it.
-/
import ApiSyntax.Proofs.Pattern.Steady

set_option autoImplicit false

namespace ApiSyntax

namespace Pattern

variable {s s' : ReadState}

/-! ## Sets -/

/-- The name of a set ends at a colon, so the bracket behind the text is not part of it. -/
theorem namedSet?_closed (rest : List Char) : namedSet? (rest ++ [')']) = namedSet? rest := by
  have hname : ∀ text : List Char,
      [':', ']'].isPrefixOf ((text ++ [')']).drop ((text ++ [')']).takeWhile (· != ':')).length) =
        [':', ']'].isPrefixOf (text.drop (text.takeWhile (· != ':')).length) ∧
      ([':', ']'].isPrefixOf (text.drop (text.takeWhile (· != ':')).length) →
        (text ++ [')']).takeWhile (· != ':') = text.takeWhile (· != ':')) := by
    intro text
    induction text with
    | nil => decide
    | cons c text ih =>
      by_cases hc : c = ':'
      · subst hc
        refine ⟨?_, fun _ => rfl⟩
        exact isPrefixOf_closed (by decide) (':' :: text)
      · simpa [List.takeWhile_cons, hc] using ih
  have hnegated : ∀ text : List Char,
      ((text ++ [')']).head? == some '^') = (text.head? == some '^') := by
    intro text
    rw [Bool.eq_iff_iff, beq_iff_eq, beq_iff_eq]
    exact head?_closed (by decide) text
  have hbody : ∀ text : List Char,
      (if text.head? == some '^' then (text ++ [')']).drop 1 else text ++ [')']) =
        (if text.head? == some '^' then text.drop 1 else text) ++ [')'] := by
    intro text
    cases text with
    | nil => rfl
    | cons c text => split <;> rfl
  cases rest with
  | nil => rfl
  | cons c rest =>
    by_cases hc : c = ':'
    · subst hc
      simp only [List.cons_append, namedSet?]
      rw [hnegated, hbody]
      generalize (if (rest.head? == some '^') = true then rest.drop 1 else rest) = body
      obtain ⟨hends, htake⟩ := hname body
      rw [hends]
      split
      · next hcolon => rw [htake hcolon]
      · rfl
    · unfold namedSet?
      split
      · next heq => exact absurd (List.cons.inj heq).1 hc
      · split
        · next heq => exact absurd (List.cons.inj heq).1 hc
        · rfl

theorem openSet_steady : Steady openSet :=
  .bind (.skipIf (by decide)) fun _ => .bind (.skipWhile (by decide)) fun _ =>
    .cond (.bind (.skipIf (by decide)) fun _ => .cond (.pure _) (.pure _)) (.pure _)

theorem readSetAtom_steady : Steady readSetAtom :=
  .bind (.nextOr _) fun _ => .cond readEscape_steady (.pure _)

theorem single_steady (a : Atom) : Steady (readMember.single a) := by
  cases a with
  | literal c => exact .pure _
  | set set => exact .pure _
  | place p => exact .fail _

theorem single_run {a : Atom} {set : CharSet} (h : readMember.single a s = (.ok set, s')) :
    s' = s := by
  cases a with
  | place p => cases h
  | _ =>
    cases h
    rfl

/-- A range of members stands where a hyphen has something behind it that is neither a hyphen nor
the end of the set. -/
def rangeAhead : List Char → Bool
  | c :: d :: _ => c = '-' && !(d = ']' ∨ d = '-')
  | _ => false

/-- The rest of a range. -/
def readRange (first : Atom) : Reading CharSet := do
  skip 1
  let last ← readSetAtom
  match first, last with
  | .literal lo, .literal hi =>
      if lo ≤ hi then return .ranges [(lo, hi)] else .fail .badSet
  | _, _ => .fail .badSet

/-- A member is a range, or stands by itself. -/
theorem readMember_eq : readMember = (do
    let first ← readSetAtom
    let text ← ahead
    if rangeAhead text then readRange first else readMember.single first) := by
  unfold readMember
  congr 1
  funext first
  congr 1
  funext text
  split
  · next c rest =>
    by_cases hc : c = ']' ∨ c = '-'
    · simp [rangeAhead, hc]
    · simp only [rangeAhead, hc, decide_false, Bool.not_false, if_false]
      rfl
  · next hnot =>
    have hrange : rangeAhead text = false := by
      rcases text with _ | ⟨c, _ | ⟨d, rest⟩⟩
      · rfl
      · rfl
      · have hc : c ≠ '-' := fun h => hnot d rest (h ▸ rfl)
        simp [rangeAhead, hc]
    rw [hrange]
    rfl

theorem rangeAhead_closed {text : List Char} (h : text ≠ ['-']) :
    rangeAhead (text ++ [')']) = rangeAhead text := by
  rcases text with _ | ⟨c, _ | ⟨d, rest⟩⟩
  · rfl
  · have hc : c ≠ '-' := by simpa using h
    simp [rangeAhead, hc]
  · rfl

theorem readRange_carries (first : Atom) (h : rangeAhead s.rest) :
    Carries (readRange first) (readRange first) Same s := by
  have hlength : 1 ≤ s.rest.length := by
    cases hrest : s.rest with
    | nil =>
      rw [hrest] at h
      cases h
    | cons c rest => simp
  refine .skip hlength (.bind readSetAtom_steady fun last s₁ _ => ?_)
  split
  · exact Steady.cond (.pure _) (.fail _) s₁
  · exact .fail

/-- A member that leaves more than one hyphen is the same with the bracket behind the text. -/
theorem readMember_closed {set : CharSet} (h : readMember s = (.ok set, s'))
    (hhyphen : s'.rest ≠ ['-']) : readMember s.closed = (.ok set, s'.closed) := by
  rw [readMember_eq] at h ⊢
  have hcarries : Carries (do
      let first ← readSetAtom
      let text ← Pattern.ahead
      if rangeAhead text then readRange first else readMember.single first) (do
      let first ← readSetAtom
      let text ← Pattern.ahead
      if rangeAhead text then readRange first else readMember.single first)
      (fun a s' r => s'.rest ≠ ['-'] → Same a s' r) s := by
    refine .bind readSetAtom_steady fun first s₁ _ => .ahead ?_
    by_cases hlast : s₁.rest = ['-']
    · intro set s' hrun hne
      rw [hlast] at hrun
      exact absurd (single_run hrun ▸ hlast) hne
    · rw [rangeAhead_closed hlast]
      intro set s' hrun _
      by_cases hrange : rangeAhead s₁.rest = true
      · rw [if_pos hrange] at hrun ⊢
        exact readRange_carries first hrange set s' hrun
      · rw [if_neg hrange] at hrun ⊢
        exact single_steady first s₁ set s' hrun
  exact hcarries set s' h hhyphen

/-- The operation that a doubled sign stands for. -/
def setOperation? : Char → Option SetOperation
  | '&' => some .intersection
  | '-' => some .difference
  | '~' => some .symmetricDifference
  | _ => none

/-- What the reader of a set does next. -/
inductive SetStep
  | unclosed
  | named (set : CharSet) (length : Nat)
  | nested
  | close
  | operate (op : SetOperation)
  | member

/-- What stands ahead in a set. -/
def setStep : List Char → SetStep
  | [] => .unclosed
  | c :: rest =>
      if c = '[' then
        match namedSet? rest with
        | some (set, length) => .named set length
        | none => .nested
      else if c = ']' then .close
      else
        match setOperation? c with
        | some op => if rest.head? = some c then .operate op else .member
        | none => .member

theorem readSetN_succ (fuel : Nat) (top : OpenSet) (outer : List OpenSet) :
    readSetN (fuel + 1) top outer = (do
      let text ← ahead
      match setStep text with
      | .unclosed => .fail .unclosedSet
      | .named set length => do
          skip (1 + length)
          readSetN fuel (top.add set) outer
      | .nested => do
          skip 1
          let inner ← openSet
          readSetN fuel inner (top :: outer)
      | .close => do
          skip 1
          match outer with
          | [] => return top.value
          | next :: outer => readSetN fuel (next.add top.value) outer
      | .operate op => do
          skip 2
          readSetN fuel (top.operate op) outer
      | .member => do
          let set ← readMember
          readSetN fuel (top.add set) outer) := by
  conv_lhs => unfold readSetN
  congr 1
  funext text
  split
  · rfl
  · next rest =>
    simp only [setStep, if_true]
    cases namedSet? rest with
    | none => rfl
    | some named => rfl
  · rfl
  · rfl
  · rfl
  · rfl
  · next hnil hopen hclose hand hminus htilde =>
    have hmember : setStep text = .member := by
      cases text with
      | nil => exact absurd rfl hnil
      | cons c rest =>
        have hc : c ≠ '[' := fun h => hopen rest (h ▸ rfl)
        have hc' : c ≠ ']' := fun h => hclose rest (h ▸ rfl)
        rw [setStep, if_neg hc, if_neg hc']
        cases hop : setOperation? c with
        | none => rfl
        | some op =>
          dsimp only
          rw [if_neg]
          intro hhead
          obtain ⟨tail, rfl⟩ := List.head?_eq_some_iff.mp hhead
          unfold setOperation? at hop
          split at hop
          · exact hand tail rfl
          · exact hminus tail rfl
          · exact htilde tail rfl
          · cases hop
    rw [hmember]

/-- Where a set goes on, the bracket behind the text makes no difference to how. -/
theorem setStep_closed {text : List Char} (h : text ≠ []) :
    setStep (text ++ [')']) = setStep text := by
  cases text with
  | nil => exact absurd rfl h
  | cons c rest =>
    rw [List.cons_append, setStep, setStep, namedSet?_closed]
    cases hop : setOperation? c with
    | none => rfl
    | some op =>
      have hc : c ≠ ')' := by
        rintro rfl
        cases hop
      simp only [head?_closed hc]

theorem length_le_of_namedSet? {rest : List Char} {set : CharSet} {n : Nat}
    (h : namedSet? rest = some (set, n)) : n ≤ rest.length := by
  unfold namedSet? at h
  split at h
  · next rest =>
    dsimp only at h
    generalize (rest.head? == some '^') = negated at h
    have hbody : (if negated then rest.drop 1 else rest).length =
        rest.length - if negated then 1 else 0 := by
      cases negated <;> simp
    generalize (if negated then rest.drop 1 else rest) = body at h hbody
    by_cases hends : [':', ']'].isPrefixOf (body.drop (body.takeWhile (· != ':')).length) = true
    · rw [if_pos hends] at h
      obtain ⟨found, -, heq⟩ := Option.map_eq_some_iff.mp h
      cases heq
      have hlength := (List.isPrefixOf_iff_prefix.mp hends).length_le
      simp only [List.length_drop, List.length_cons, List.length_nil] at hlength ⊢
      cases negated <;> simp at hbody ⊢ <;> omega
    · rw [if_neg hends] at h
      cases h
  · cases h

/-- What the next step passes stands ahead. -/
theorem length_le_of_named {text : List Char} {set : CharSet} {n : Nat}
    (h : setStep text = .named set n) : 1 + n ≤ text.length := by
  unfold setStep at h
  split at h
  · cases h
  · next c rest =>
    split at h
    · split at h
      · next hnamed =>
        cases h
        have hle := length_le_of_namedSet? hnamed
        rw [List.length_cons]
        omega
      · cases h
    · split at h
      · cases h
      · split at h
        · split at h <;> cases h
        · cases h

theorem two_le_of_operate {text : List Char} {op : SetOperation}
    (h : setStep text = .operate op) : 2 ≤ text.length := by
  rcases text with _ | ⟨c, _ | ⟨d, rest⟩⟩
  · cases h
  · unfold setStep at h
    dsimp only at h
    split at h
    · cases h
    · split at h
      · cases h
      · split at h <;> cases h
  · simp

/-- A hyphen alone does not end a set. -/
theorem readSetN_hyphen (h : s.rest = ['-']) (fuel : Nat) (top : OpenSet) (outer : List OpenSet)
    (set : CharSet) (s' : ReadState) : readSetN fuel top outer s ≠ (.ok set, s') := by
  intro hrun
  obtain ⟨rest, names, flags⟩ := s
  cases h
  match fuel, hrun with
  | 0, hrun => cases hrun
  | 1, hrun => cases hrun
  | fuel + 2, hrun =>
    -- The hyphen is a member, and behind it the set is not closed.
    have hmember : readSetN (fuel + 2) top outer ⟨['-'], names, flags⟩ =
        readSetN (fuel + 1) (top.add (.single '-')) outer ⟨[], names, flags⟩ := rfl
    rw [hmember] at hrun
    cases hrun

/-- A set that is closed ahead is the same with the bracket behind the text, and on any larger
bound. -/
theorem readSetN_carries {fuel fuel' : Nat} (hle : fuel ≤ fuel') (top : OpenSet)
    (outer : List OpenSet) (s : ReadState) :
    Carries (readSetN fuel top outer) (readSetN fuel' top outer) Same s := by
  induction fuel generalizing fuel' top outer s with
  | zero => exact .fail
  | succ fuel ih =>
    obtain ⟨fuel', rfl⟩ : ∃ k, fuel' = k + 1 := ⟨fuel' - 1, by omega⟩
    replace hle : fuel ≤ fuel' := by omega
    rw [readSetN_succ, readSetN_succ]
    refine .ahead ?_
    by_cases hnil : s.rest = []
    · rw [hnil]
      exact .fail
    rw [setStep_closed hnil]
    have hone : 1 ≤ s.rest.length := List.length_pos_iff.mpr hnil
    cases hstep : setStep s.rest with
    | unclosed => exact .fail
    | named set length => exact .skip (length_le_of_named hstep) (ih hle _ _ _)
    | nested => exact .skip hone (.bind openSet_steady fun inner s₁ _ => ih hle _ _ s₁)
    | close =>
      refine .skip hone ?_
      cases outer with
      | nil => exact Steady.pure _ _
      | cons next outer => exact ih hle _ _ _
    | operate op => exact .skip (two_le_of_operate hstep) (ih hle _ _ _)
    | member =>
      refine .bind_or fun set s₁ hrun => ?_
      by_cases hhyphen : s₁.rest = ['-']
      · exact .inr fun set' s₂ => readSetN_hyphen hhyphen _ _ _ set' s₂
      · exact .inl ⟨readMember_closed hrun hhyphen, ih hle _ _ s₁⟩

theorem readSet_steady : Steady readSet := by
  intro s
  refine .ahead (.bind openSet_steady fun top s₁ _ => readSetN_carries ?_ top [] s₁)
  rw [List.length_append]
  omega

/-! ## Whole patterns -/

/-- A text that is a pattern is a group when a closing bracket follows: the group becomes a piece
of the level around it, and the text ends there. -/
theorem readN_carries {fuel fuel' : Nat} (hlt : fuel < fuel') (around top : Level)
    (outer : List Level) (s : ReadState) :
    Carries (readN fuel top outer) (readN fuel' top (outer ++ [around]))
      (fun p _ r => r.1 = .ok (around.add p).value) s := by
  induction fuel generalizing fuel' top outer s with
  | zero => exact .fail
  | succ fuel ih =>
    obtain ⟨fuel', rfl⟩ : ∃ k, fuel' = k + 1 := ⟨fuel' - 1, by omega⟩
    replace hlt : fuel < fuel' := by omega
    unfold readN
    refine .ahead ?_
    cases hrest : s.rest with
    | nil =>
      cases outer with
      | cons next outer => exact .fail
      | nil =>
        -- The bracket closes the group, and nothing is left to read.
        obtain ⟨fuel', rfl⟩ : ∃ k, fuel' = k + 1 := ⟨fuel' - 1, by omega⟩
        obtain ⟨rest, names, flags⟩ := s
        cases hrest
        intro p s' hrun
        cases hrun
        rfl
    | cons c rest =>
      have hone : 1 ≤ s.rest.length := by
        rw [hrest]
        simp
      refine .skip hone ?_
      split
      · refine .bind .currentFlags fun flags s₁ _ => .bind readGroupHead_steady fun opens s₂ _ => ?_
        cases opens with
        | true => exact ih hlt (.opened flags) (top :: outer) s₂
        | false => exact ih hlt _ outer s₂
      · cases outer with
        | nil => exact .fail
        | cons next outer => exact .bind (.setFlags _) fun _ s₁ _ => ih hlt _ outer s₁
      · exact ih hlt _ _ _
      · exact .bind readSet_steady fun set s₁ _ => ih hlt _ _ s₁
      · exact .bind (readRepetition_steady _ _) fun top s₁ _ => ih hlt _ _ s₁
      · exact .bind (readRepetition_steady _ _) fun top s₁ _ => ih hlt _ _ s₁
      · exact .bind readGreed_steady fun greedy s₁ _ =>
          .bind (repeating_steady _ _) fun top s₂ _ => ih hlt _ _ s₂
      · exact .bind readBounds_steady fun bounds s₁ _ =>
          .bind (readRepetition_steady _ _) fun top s₂ _ => ih hlt _ _ s₂
      · exact .bind readEscape_steady fun atom s₁ _ => ih hlt _ _ s₁
      · exact .bind .currentFlags fun flags s₁ _ => ih hlt _ _ s₁

theorem ofText_eq_ok {text : List Char} {p : Pattern} : ofText text = .ok p ↔
    (readN (text.length + 1) (.opened noFlags) [] ⟨text, [], noFlags⟩).1 = .ok p ∧
      p.unrolledSize ≤ maxSize := by
  unfold ofText
  rcases readN (text.length + 1) (.opened noFlags) [] ⟨text, [], noFlags⟩ with ⟨f | q, s'⟩
  · simp
  · dsimp only
    split
    · next hsize =>
      exact ⟨fun h => ⟨h, Except.ok.inj h ▸ hsize⟩, And.left⟩
    · next hsize =>
      refine ⟨fun h => (nomatch h), fun ⟨h, hle⟩ => absurd (Except.ok.inj h ▸ hle) hsize⟩

/-- Behind the head of a group the text itself is read. -/
theorem readN_open (fuel : Nat) (around : Level) (text : List Char) :
    readN (fuel + 1) around [] ⟨Engine.grouped text, [], noFlags⟩ =
      readN fuel (.opened noFlags) [around] (ReadState.closed ⟨text, [], noFlags⟩) := rfl

/-- In a group the text is a piece of the level around it. -/
theorem readN_grouped {text : List Char} {p : Pattern} (h : ofText text = .ok p) (around : Level)
    {fuel : Nat} (hfuel : text.length + 1 < fuel) :
    (readN (fuel + 1) around [] ⟨Engine.grouped text, [], noFlags⟩).1 =
      .ok (around.add p).value := by
  obtain ⟨s', hinner⟩ : ∃ s',
      readN (text.length + 1) (.opened noFlags) [] ⟨text, [], noFlags⟩ = (.ok p, s') :=
    ⟨_, Prod.ext (ofText_eq_ok.mp h).1 rfl⟩
  rw [readN_open]
  exact readN_carries hfuel around _ _ _ p s' hinner

theorem length_grouped (text : List Char) : (Engine.grouped text).length = text.length + 4 := by
  simp [Engine.grouped]

/-- A text that is a pattern by itself is the same pattern in a group. -/
theorem ofText_grouped {text : List Char} {p : Pattern} (h : ofText text = .ok p) :
    ofText (Engine.grouped text) = .ok p := by
  refine ofText_eq_ok.mpr ⟨?_, (ofText_eq_ok.mp h).2⟩
  rw [length_grouped]
  exact readN_grouped h (.opened noFlags) (by omega)

/-- In a group at the start of the text it is the same pattern, anchored. -/
theorem ofText_anchored {text : List Char} {p q : Pattern} (hp : ofText text = .ok p)
    (hq : ofText ('^' :: Engine.grouped text) = .ok q) : q = .seq (.place .textStart) p := by
  have hread := (ofText_eq_ok.mp hq).1
  rw [List.length_cons, length_grouped] at hread
  have hgroup := readN_grouped hp ((Level.opened noFlags).add (.place .textStart))
    (show text.length + 1 < text.length + 4 by omega)
  cases hgroup.symm.trans hread
  rfl

end Pattern

end ApiSyntax
