/-
  ApiSyntax/Proofs/Tokenizer/Additions.lean --- categories that are added to a tokenizer.

  A category is added at one place between the others, which keep their order, or it is
  refused and nothing changes; names stay distinct.  What was tokenized before is tokenized
  as before by the longer list, segment by segment, up to the first place where the new
  category stands ahead of the one that took the segment and has a match.
-/
import ApiSyntax.Proofs.Tokenizer.Partition
import ApiSyntax.Tokenizer.Builtin

set_option autoImplicit false

namespace ApiSyntax

/-- The category takes the first `n` characters of the text, at least one. -/
def Category.StartsAt {P : Type} [Engine P] (c : Category P) (text : List Char) (n : Nat) : Prop :=
  c.matchLength text = some n ∧ 0 < n ∧ n ≤ text.length

theorem Category.startsAt {P : Type} [Engine P] [Engine.InBounds P] {c : Category P}
    {text : List Char} {n : Nat} (h : c.matchLength text = some n) : c.StartsAt text n :=
  ⟨h, matchLength_pos h, matchLength_le h⟩

namespace Tokenizer

variable {P : Type}

/-! ## Additions -/

/-- A category, and where it is to be added. -/
inductive Addition (P : Type := Pattern)
  | push (c : Category P)
  | insertAt (c : Category P) (index : Nat)
  | insertBefore (c : Category P) (anchor : TokenKind)

namespace Addition

/-- The category that is added. -/
def category : Addition P → Category P
  | push c => c
  | insertAt c _ => c
  | insertBefore c _ => c

/-- The tokenizer with the category added, or why it is refused. -/
def apply (a : Addition P) (t : Tokenizer P) : Except Diagnostic (Tokenizer P) :=
  match a with
  | push c => t.push c
  | insertAt c index => t.insertAt c index
  | insertBefore c anchor => t.insertBefore c anchor

/-- The addition, recorded. -/
def record : Addition P → Action (Journaled (Tokenizer P)) Diagnostic Unit
  | push c => recordPush c
  | insertAt c index => recordInsertAt c index
  | insertBefore c anchor => recordInsertBefore c anchor

/-- The name is new, and there is a category to stand ahead of if one is asked for. -/
def Fits (a : Addition P) (t : Tokenizer P) : Prop :=
  (∀ d ∈ t.categories, d.kind.name ≠ a.category.kind.name) ∧
    match a with
    | insertBefore _ anchor => ∃ d ∈ t.categories, d.kind.name = anchor.name
    | _ => True

/-- The place between the categories `front` and `back` is the one that is asked for. -/
def Between (a : Addition P) (front back : List (Category P)) : Prop :=
  match a with
  | push _ => back = []
  | insertAt _ index => front.length = min index (front ++ back).length
  | insertBefore _ anchor => (∀ d ∈ front, d.kind.name ≠ anchor.name) ∧
      ∃ d rest, back = d :: rest ∧ d.kind.name = anchor.name

end Addition

variable {t : Tokenizer P} {c : Category P} {a : Addition P}

/-- No two categories share a name. -/
def Distinct (t : Tokenizer P) : Prop :=
  t.categories.Pairwise fun c d => c.kind.name ≠ d.kind.name

theorem distinct_empty : (empty : Tokenizer P).Distinct := .nil

theorem distinct_builtin : builtin.Distinct := by
  unfold Distinct
  decide

/-- A name has no place when it is new. -/
theorem positionOf_eq_none {kind : TokenKind} :
    t.positionOf kind = none ↔ ∀ d ∈ t.categories, d.kind.name ≠ kind.name := by
  simp [positionOf, TokenKind.same]

/-- The place of a name is that of the first category with it. -/
theorem positionOf_eq_some {kind : TokenKind} {index : Nat} (h : t.positionOf kind = some index) :
    ∃ front d rest, t.categories = front ++ d :: rest ∧ front.length = index ∧
      d.kind.name = kind.name ∧ ∀ e ∈ front, e.kind.name ≠ kind.name := by
  obtain ⟨hlt, hsame, hearlier⟩ := List.findIdx?_eq_some_iff_getElem.mp h
  refine ⟨t.categories.take index, t.categories[index], t.categories.drop (index + 1), ?_, ?_, ?_, ?_⟩
  · rw [List.getElem_cons_drop, List.take_append_drop]
  · simp [Nat.min_eq_left (Nat.le_of_lt hlt)]
  · exact (TokenKind.same_iff _ _).mp hsame
  · intro e he
    obtain ⟨i, hi, rfl⟩ := List.mem_take_iff_getElem.mp he
    have hnot := hearlier i (by omega)
    simpa using hnot

theorem insertIdx_between (c : Category P) (front back : List (Category P)) :
    (front ++ back).insertIdx front.length c = front ++ c :: back := by
  induction front with
  | nil => rfl
  | cons d front ih => simp [ih]

/-- A category is inserted if its name is new, between those before the place and the others. -/
theorem insertAt_of_new (index : Nat) (h : ∀ d ∈ t.categories, d.kind.name ≠ c.kind.name) :
    ∃ front back, t.categories = front ++ back ∧
      front.length = min index t.categories.length ∧
      t.insertAt c index = .ok ⟨front ++ c :: back⟩ := by
  let place := min index t.categories.length
  have hlength : (t.categories.take place).length = place := by
    rw [List.length_take]
    omega
  have hinsert := insertIdx_between c (t.categories.take place) (t.categories.drop place)
  rw [List.take_append_drop, hlength] at hinsert
  refine ⟨t.categories.take place, t.categories.drop place,
    (List.take_append_drop place t.categories).symm, hlength, ?_⟩
  rw [insertAt, positionOf_eq_none.mpr h, hinsert]
  rfl

theorem insertAt_of_taken {index : Nat} (h : ¬ ∀ d ∈ t.categories, d.kind.name ≠ c.kind.name) :
    t.insertAt c index = .error (.of (.duplicateLexicalCategory c.kind.name)) := by
  have hsome : (t.positionOf c.kind).isSome = true := by
    rw [Option.isSome_iff_ne_none]
    exact fun hnone => h (positionOf_eq_none.mp hnone)
  rw [insertAt, if_pos hsome]

theorem insertBefore_eq {anchor : TokenKind} :
    t.insertBefore c anchor =
      match t.positionOf anchor with
      | some index => t.insertAt c index
      | none =>
          if (t.positionOf c.kind).isSome then .error (.of (.duplicateLexicalCategory c.kind.name))
          else .error (.of (.unknownLexicalCategory anchor.name)) := by
  unfold insertBefore insertAt
  split
  · cases t.positionOf anchor <;> rfl
  · rfl

/-- An addition that is made puts its category at the place that was asked for, and the others keep
their order. -/
theorem Addition.apply_of_fits (h : a.Fits t) : ∃ front back, t.categories = front ++ back ∧
    a.Between front back ∧ a.apply t = .ok ⟨front ++ a.category :: back⟩ := by
  obtain ⟨hnew, hanchor⟩ := h
  cases a with
  | push c =>
    obtain ⟨front, back, hsplit, hlength, hmade⟩ := insertAt_of_new t.categories.length hnew
    refine ⟨front, back, hsplit, ?_, hmade⟩
    rw [Nat.min_self, hsplit, List.length_append] at hlength
    exact List.length_eq_zero_iff.mp (by omega)
  | insertAt c index =>
    obtain ⟨front, back, hsplit, hlength, hmade⟩ := insertAt_of_new index hnew
    rw [hsplit] at hlength
    exact ⟨front, back, hsplit, hlength, hmade⟩
  | insertBefore c anchor =>
    obtain ⟨index, hindex⟩ : ∃ index, t.positionOf anchor = some index := by
      rw [← Option.ne_none_iff_exists']
      obtain ⟨d, hd, hname⟩ := hanchor
      exact fun hnone => positionOf_eq_none.mp hnone d hd hname
    obtain ⟨before, d, rest, hfound, hplace, hname, hfirst⟩ := positionOf_eq_some hindex
    obtain ⟨front, back, hsplit, hlength, hmade⟩ := insertAt_of_new index hnew
    -- The place of the anchor is within the list, so the two splits are the same.
    have hbefore : front = before ∧ back = d :: rest := by
      apply List.append_inj (hsplit.symm.trans hfound)
      rw [hlength, hplace, hfound, List.length_append]
      omega
    obtain ⟨rfl, rfl⟩ := hbefore
    refine ⟨front, d :: rest, hsplit, ⟨hfirst, d, rest, rfl, hname⟩, ?_⟩
    rw [apply, insertBefore_eq, hindex]
    exact hmade

/-- An addition is refused when its name is taken or what it is to stand ahead of is not there. -/
theorem Addition.apply_of_not_fits (h : ¬ a.Fits t) : ∃ d, a.apply t = .error d := by
  by_cases hnew : ∀ d ∈ t.categories, d.kind.name ≠ a.category.kind.name
  · have hanchor : ¬ _ := fun hanchor => h ⟨hnew, hanchor⟩
    cases a with
    | push c => exact absurd trivial hanchor
    | insertAt c index => exact absurd trivial hanchor
    | insertBefore c anchor =>
      have hnone : t.positionOf anchor = none :=
        positionOf_eq_none.mpr fun d hd hname => hanchor ⟨d, hd, hname⟩
      refine ⟨.of (.unknownLexicalCategory anchor.name), ?_⟩
      have hplace : t.positionOf c.kind = none := positionOf_eq_none.mpr hnew
      rw [apply, insertBefore_eq, hnone, hplace]
      rfl
  · refine ⟨.of (.duplicateLexicalCategory a.category.kind.name), ?_⟩
    cases a with
    | push c => exact insertAt_of_taken hnew
    | insertAt c index => exact insertAt_of_taken hnew
    | insertBefore c anchor =>
      have hsome : (t.positionOf c.kind).isSome = true := by
        rw [Option.isSome_iff_ne_none]
        exact fun hnone => hnew (positionOf_eq_none.mp hnone)
      exact if_pos hsome

/-- Names stay distinct when a new one is put between them. -/
theorem Distinct.between {front back : List (Category P)} (h : t.Distinct)
    (hsplit : t.categories = front ++ back)
    (hnew : ∀ d ∈ t.categories, d.kind.name ≠ c.kind.name) : Distinct ⟨front ++ c :: back⟩ := by
  unfold Distinct at h ⊢
  rw [hsplit] at h hnew
  obtain ⟨hfront, hback, hacross⟩ := List.pairwise_append.mp h
  obtain ⟨hnewfront, hnewback⟩ := List.forall_mem_append.mp hnew
  refine List.pairwise_append.mpr ⟨hfront, List.pairwise_cons.mpr ⟨?_, hback⟩, ?_⟩
  · exact fun d hd => (hnewback d hd).symm
  · exact fun d hd => List.forall_mem_cons.mpr ⟨hnewfront d hd, hacross d hd⟩

/-! ## Recorded additions -/

namespace Addition

variable {j : Journaled (Tokenizer P)}

/-- An addition is a change that may be refused. -/
theorem record_eq (a : Addition P) : ∃ event, a.record = Journaled.change a.apply event := by
  cases a with
  | push c => exact ⟨fun t => .categoryInserted c.kind.name t.categories.length, rfl⟩
  | insertAt c index =>
    exact ⟨fun t => .categoryInserted c.kind.name (min index t.categories.length), rfl⟩
  | insertBefore c anchor =>
    exact ⟨fun t => .categoryInserted c.kind.name ((t.positionOf anchor).getD 0), rfl⟩

/-- The tokenizer and its events behind an addition; a refused one leaves both as they were. -/
def after (j : Journaled (Tokenizer P)) (a : Addition P) : Journaled (Tokenizer P) := (a.record j).2

/-- The tokenizer and its events behind additions, made one after another. -/
def afterAll (j : Journaled (Tokenizer P)) (additions : List (Addition P)) :
    Journaled (Tokenizer P) :=
  additions.foldl after j

/-- What an addition comes to: it is made and recorded, or refused with nothing changed. -/
theorem record_cases (a : Addition P) (j : Journaled (Tokenizer P)) :
    (a.Fits j.value ∧ ∃ front back e, j.value.categories = front ++ back ∧ a.Between front back ∧
      a.record j = (.ok (), ⟨⟨front ++ a.category :: back⟩, j.events.push e⟩)) ∨
    (¬ a.Fits j.value ∧ ∃ d, a.record j = (.error d, j)) := by
  obtain ⟨event, hrecord⟩ := a.record_eq
  rw [hrecord]
  unfold Journaled.change
  by_cases hfits : a.Fits j.value
  · obtain ⟨front, back, hsplit, hbetween, hok⟩ := apply_of_fits hfits
    rw [hok]
    exact .inl ⟨hfits, front, back, event j.value, hsplit, hbetween, rfl⟩
  · obtain ⟨d, hd⟩ := apply_of_not_fits hfits
    rw [hd]
    exact .inr ⟨hfits, d, rfl⟩

theorem distinct_after (a : Addition P) (h : j.value.Distinct) : (after j a).value.Distinct := by
  unfold after
  obtain ⟨hfits, front, back, e, hsplit, -, hrun⟩ | ⟨-, d, hrun⟩ := a.record_cases j
  · rw [hrun]
    exact h.between hsplit hfits.1
  · rw [hrun]
    exact h

theorem distinct_afterAll (additions : List (Addition P)) (h : j.value.Distinct) :
    (afterAll j additions).value.Distinct := by
  induction additions generalizing j with
  | nil => exact h
  | cons a additions ih => exact ih (a.distinct_after h)

end Addition

/-! ## Tokens before and after -/

section Cuts

variable [Engine P] {front back : List (Category P)} {text left : List Char}
  {segments : List (Segment P)} {n : Nat} {d : Category P}

/-- What comes first at a place still does when the category that is added stands behind it or has
no match there. -/
theorem IsFirst.between (h : t.IsFirst text d n) (hsplit : t.categories = front ++ back)
    (hbehind : back = [] ∨ c.matchLength text = none) :
    IsFirst ⟨front ++ c :: back⟩ text d n := by
  rw [← first?_eq_some_iff] at h ⊢
  unfold first? at h ⊢
  rw [hsplit, List.findSome?_append] at h
  rw [List.findSome?_append, List.findSome?_cons]
  rcases hbehind with rfl | hnone
  · rw [List.findSome?_nil, Option.or_none] at h
    rw [h]
    rfl
  · rw [hnone]
    exact h

/-- A cut stays the same if at the start of each segment what is added stands behind or has no
match. -/
theorem Cuts.between (h : t.Cuts text segments left) (hsplit : t.categories = front ++ back)
    (hbehind : back = [] ∨ ∀ earlier segment later, segments = earlier ++ segment :: later →
      c.matchLength (segment.text ++ ((later.map (·.text)).flatten ++ left)) = none) :
    Cuts ⟨front ++ c :: back⟩ text segments left := by
  induction h with
  | stop text => exact .stop text
  | @step e piece rest left segments first others ih =>
    refine .step (first.between hsplit ?_) (ih ?_)
    · refine hbehind.imp_right fun hnone => ?_
      rw [others.flatten]
      exact hnone [] ⟨e, piece⟩ segments rfl
    · refine hbehind.imp_right fun hnone earlier segment later hsegments => ?_
      exact hnone (⟨e, piece⟩ :: earlier) segment later (by rw [hsegments]; rfl)

/-- A text that was cut to its end is tokenized as before if it is cut as before. -/
theorem tokenizeWithEnd_between [Engine.InBounds P] {read : List Token × Span}
    (h : t.tokenizeWithEnd text = .ok read)
    (hsplit : t.categories = front ++ back) :
    ∃ segments, t.Cuts text segments [] ∧
      ((back = [] ∨ ∀ earlier segment later, segments = earlier ++ segment :: later →
        c.matchLength (segment.text ++ (later.map (·.text)).flatten) = none) →
        tokenizeWithEnd ⟨front ++ c :: back⟩ text = .ok read) := by
  obtain ⟨segments, left, hcuts, hstuck⟩ := t.exists_cuts text
  have hmade := tokenizeWithEnd_of_cuts hcuts hstuck
  rw [h] at hmade
  obtain rfl : left = [] := by
    by_contra hleft
    rw [if_neg fun hempty => hleft (List.isEmpty_iff.mp hempty)] at hmade
    cases hmade
  refine ⟨segments, hcuts, fun hbehind => ?_⟩
  have hbetween : Cuts ⟨front ++ c :: back⟩ text segments [] :=
    hcuts.between hsplit (by simpa only [List.append_nil] using hbehind)
  rw [tokenizeWithEnd_of_cuts hbetween (.inl rfl), ← hmade]

/-- With any engine: names stay distinct over any additions.  An addition is refused exactly where it
does not fit, and then nothing changes; else its category stands at the place that was asked for,
and the others keep their order.  A text that was tokenized is tokenized as before when the category
has the least priority; else it can be tokenized in another way only if the new category has a match
that is not empty where a segment of it started. -/
theorem additions_safe [Engine.InBounds P] :
    ((empty : Tokenizer P).Distinct ∧ builtin.Distinct ∧
      ∀ (j : Journaled (Tokenizer P)) (additions : List (Addition P)), j.value.Distinct →
        (Addition.afterAll j additions).value.Distinct) ∧
    (∀ (a : Addition P) (j j' : Journaled (Tokenizer P)) (d : Diagnostic),
      a.record j = (.error d, j') → ¬ a.Fits j.value ∧ j' = j) ∧
    (∀ (a : Addition P) (j j' : Journaled (Tokenizer P)), a.record j = (.ok (), j') →
      a.Fits j.value ∧ ∃ front back, j.value.categories = front ++ back ∧
        j'.value.categories = front ++ a.category :: back ∧ a.Between front back) ∧
    ∀ (a : Addition P) (j j' : Journaled (Tokenizer P)) (text : List Char)
        (read : List Token × Span),
      a.record j = (.ok (), j') → j.value.tokenizeWithEnd text = .ok read →
      ((∃ c, a = .push c) → j'.value.tokenizeWithEnd text = .ok read) ∧
      (j'.value.tokenizeWithEnd text ≠ .ok read → ∃ earlier segment later n,
        j.value.Cuts text (earlier ++ segment :: later) [] ∧
        a.category.StartsAt (segment.text ++ (later.map (·.text)).flatten) n) := by
  refine ⟨⟨distinct_empty, distinct_builtin, fun j additions => Addition.distinct_afterAll additions⟩,
    fun a j j' d hrun => ?_, fun a j j' hrun => ?_, fun a j j' text read hrun hread => ?_⟩
  · obtain ⟨-, front, back, e, -, -, hmade⟩ | ⟨hnot, d', hrefused⟩ := a.record_cases j
    · cases hmade.symm.trans hrun
    · cases hrefused.symm.trans hrun
      exact ⟨hnot, rfl⟩
  · obtain ⟨hfits, front, back, e, hsplit, hbetween, hmade⟩ | ⟨-, d, hrefused⟩ := a.record_cases j
    · cases hmade.symm.trans hrun
      exact ⟨hfits, front, back, hsplit, rfl, hbetween⟩
    · cases hrefused.symm.trans hrun
  · obtain ⟨-, front, back, e, hsplit, hbetween, hmade⟩ | ⟨-, d, hrefused⟩ := a.record_cases j
    · cases hmade.symm.trans hrun
      obtain ⟨segments, hcuts, hsame⟩ := tokenizeWithEnd_between (c := a.category) hread hsplit
      refine ⟨?_, fun hchanged => ?_⟩
      · rintro ⟨c, rfl⟩
        exact hsame (.inl hbetween)
      · by_contra hnone
        refine hchanged (hsame (.inr fun earlier segment later hsegments => ?_))
        by_contra hsome
        obtain ⟨n, hn⟩ := Option.ne_none_iff_exists'.mp hsome
        exact hnone ⟨earlier, segment, later, n, hsegments ▸ hcuts, Category.startsAt hn⟩
    · cases hrefused.symm.trans hrun

end Cuts

/-- An amount of money: digits, perhaps behind a sign. -/
def money : Category :=
  ⟨.custom "Money", "\\$?[0-9]+",
    .seq (.place .textStart) (.seq (.alt (.char (.single '$')) .empty) digits), false⟩

/-- The names of the kinds of the tokens of a text. -/
def kindNames (t : Tokenizer) (text : List Char) : Option (List String) :=
  (t.tokenizeWithEnd text).toOption.map fun read => read.1.map (·.kind.name)

/-- Ahead of integers, amounts of money change what `x 12` is, and they have a match where the
integer was. -/
theorem additions_safe_money : ∃ j' read,
    (Addition.insertBefore money .integer).record (.start builtin) = (.ok (), j') ∧
    j'.value.Distinct ∧
    builtin.tokenizeWithEnd "x 12".toList = .ok read ∧
    j'.value.tokenizeWithEnd "x 12".toList ≠ .ok read ∧
    ∃ earlier segment later n, builtin.Cuts "x 12".toList (earlier ++ segment :: later) [] ∧
      money.StartsAt (segment.text ++ (later.map (·.text)).flatten) n := by
  obtain ⟨⟨-, hbuiltin, hdistinct⟩, -, -, htokens⟩ := additions_safe
  let j' := Addition.after (.start builtin) (.insertBefore money .integer)
  have hfits : (Addition.insertBefore money .integer).Fits builtin :=
    ⟨by decide, _, .tail _ (.tail _ (.head _)), rfl⟩
  have hrun : (Addition.insertBefore money .integer).record (.start builtin) = (.ok (), j') := by
    obtain ⟨-, front, back, e, -, -, hmade⟩ | ⟨hnot, -⟩ :=
      (Addition.insertBefore money .integer).record_cases (.start builtin)
    · exact Prod.ext (by rw [hmade]) rfl
    · exact absurd hfits hnot
  have hkinds : builtin.kindNames "x 12".toList = some ["Identifier", "Integer"] ∧
      j'.value.kindNames "x 12".toList = some ["Identifier", "Money"] := by
    decide +kernel
  cases hread : builtin.tokenizeWithEnd "x 12".toList with
  | error d =>
    have hnone := hkinds.1
    rw [kindNames, hread] at hnone
    cases hnone
  | ok read =>
    have hchanged : j'.value.tokenizeWithEnd "x 12".toList ≠ .ok read := by
      intro hsame
      have heq : j'.value.kindNames "x 12".toList = builtin.kindNames "x 12".toList := by
        rw [kindNames, kindNames, hsame, hread]
      rw [hkinds.1, hkinds.2] at heq
      exact absurd heq (by decide)
    exact ⟨j', read, hrun, hdistinct _ [.insertBefore money .integer] hbuiltin, rfl, hchanged,
      (htokens _ _ _ _ _ hrun hread).2 hchanged⟩

end Tokenizer

end ApiSyntax
