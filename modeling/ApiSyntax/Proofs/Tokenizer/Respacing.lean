/-
  ApiSyntax/Proofs/Tokenizer/Respacing.lean --- blanks between tokens do not matter.

  A piece that is taken from a text is taken from it alone, and from it with a blank behind
  it.  For all categories but one this is how matches reach: no place looks behind the
  piece.  Reserved words look at the next character.  Where they pass over the front of a
  name, it is that name that goes on; so they pass over it when it stands alone, as they
  must.
-/
import ApiSyntax.Proofs.Tokenizer.Alphabet

set_option autoImplicit false

namespace ApiSyntax

open Pattern

namespace Tokenizer

/-! ## Reserved words and names -/

/-- The category of reserved words. -/
def reserved : Category :=
  category .keyword ("(?:" ++ "|".intercalate keywords ++ ")\\b") reservedWord

/-- The category of identifiers. -/
def names : Category := category .identifier "[a-z_][A-Za-z0-9_]*" (nameOf lowerStart)

/-- Names come directly behind reserved words, and only reserved words look at what stands
behind them. -/
theorem builtin_order : ∃ front back, builtin.categories = front ++ reserved :: names :: back ∧
    ∀ c ∈ front ++ names :: back, c.pattern.places = [.textStart] :=
  ⟨builtinCategories.take 3, builtinCategories.drop 5, rfl, by decide⟩

variable {c d : Category} {earlier later : List Category} {v w rest : List Char}

theorem builtin_places (h : c ∈ builtin.categories) :
    c.pattern.places = [.textStart] ∨ c = reserved := by
  obtain ⟨front, back, horder, hplain⟩ := builtin_order
  rw [horder] at h
  rcases List.mem_append.mp h with h | h
  · exact .inl (hplain c (List.mem_append_left _ h))
  · rcases List.mem_cons.mp h with rfl | h
    · exact .inr rfl
    · exact .inl (hplain c (List.mem_append_right _ h))

/-- Behind reserved words come names, and then all the rest. -/
theorem behind_reserved (hsplit : builtin.categories = earlier ++ c :: later)
    (h : reserved ∈ earlier) : c = names ∨ names ∈ earlier := by
  obtain ⟨front, back, horder, hplain⟩ := builtin_order
  have hfront : reserved ∉ front := fun hmem =>
    absurd (hplain reserved (List.mem_append_left _ hmem)) (by decide)
  rw [horder] at hsplit
  rcases List.append_eq_append_iff.mp hsplit with ⟨a, rfl, ha⟩ | ⟨a, rfl, -⟩
  · cases a with
    | nil =>
      rw [List.append_nil] at h
      exact absurd h hfront
    | cons r a =>
      obtain ⟨rfl, hb⟩ := List.cons.inj ha
      cases a with
      | nil => exact .inl (List.cons.inj hb).1.symm
      | cons n a =>
        obtain ⟨rfl, -⟩ := List.cons.inj hb
        exact .inr (by simp)
  · exact absurd (List.mem_append_left _ h) hfront

/-- What a reserved word takes is one of the words. -/
theorem reserved_taken {m : Nat} (h : reserved.matchLength v = some m) :
    ∃ word ∈ keywords, v.take m = word.toList := by
  have hmatches := matches_of_category
    (matches_of_matchEnd (p := reserved.pattern) rfl (Option.filter_eq_some_iff.mp h).1)
  generalize v.take m = u at hmatches
  cases hmatches with
  | seq first second =>
    cases second
    obtain ⟨p, hp, hword⟩ := matches_firstOf (by decide) first
    obtain ⟨word, hmem, rfl⟩ := List.mem_map.mp hp
    rw [List.append_nil]
    exact ⟨word, hmem, matches_literal hword⟩

/-- A reserved word alone is taken whole. -/
theorem reserved_word : ∀ word ∈ keywords,
    reserved.matchLength word.toList = some word.toList.length := by
  decide +kernel

theorem keywords_start : ∀ word ∈ keywords, (word.toList.head?.any lowerStart.has) = true := by
  decide

/-- What a name is, once it has a start. -/
theorem names_matchLength {e : Char} (rest : List Char) (he : lowerStart.has e = true) :
    names.matchLength (e :: rest) = some (1 + (rest.takeWhile nameSet.has).length) := by
  have hend : names.pattern.matchEnd (e :: rest) = _ := matchEnd_startRun rest he
  have hpos : 0 < 1 + (rest.takeWhile nameSet.has).length := by omega
  rw [Category.matchLength_eq, hend, Option.filter_some, if_pos (decide_eq_true hpos)]

/-- Of the alphabet only what a name goes on with are word characters. -/
theorem not_isWordChar_of_not_name {e : Char} (he : inAlphabet e = true)
    (hname : nameSet.has e = false) : isWordChar e = false := by
  rcases (Bool.or_eq_true _ _).mp he with hblank | hsolid
  · exact not_isWordChar_of_isBlank hblank
  · rw [isWordChar_of_isSolid hsolid, hname]

/-- Where a run ends, its text does not go on. -/
theorem takeWhile_behind {p : Char → Bool} (h : ((v ++ rest).takeWhile p).length = v.length) :
    ∀ e x, rest = e :: x → p e = false := by
  rintro e x rfl
  rw [List.takeWhile_append] at h
  split at h
  · rw [List.length_append, Nat.add_eq_left, List.length_eq_zero_iff] at h
    by_contra he
    rw [List.takeWhile_cons_of_pos (Bool.not_eq_false _ ▸ he)] at h
    cases h
  · next hshort => exact absurd h hshort

/-! ## What stands behind a piece -/

/-- The next character is no matter to the places of a category, unless reserved words see a
word character. -/
theorem builtin_holds (h : c ∈ builtin.categories) {after : Option Char}
    (hword : c = reserved → isWordAt after = false) :
    ∀ q ∈ c.pattern.places, ∀ before, q.holds before after = q.holds before none := by
  rcases builtin_places h with hplain | rfl
  · rw [hplain]
    exact List.forall_mem_singleton.mpr fun _ => rfl
  · have hplaces : reserved.pattern.places = [.textStart, .wordBoundary] := by decide
    have hnone : isWordAt none = false := rfl
    rw [hplaces]
    refine List.forall_mem_cons.mpr ⟨fun _ => rfl, List.forall_mem_singleton.mpr fun before => ?_⟩
    simp only [Place.holds, hword rfl, hnone]

/-- What a category takes from a text, it takes from that piece alone. -/
theorem matchLength_alone (h : c ∈ builtin.categories)
    (hmatch : c.matchLength (v ++ rest) = some v.length) : c.matchLength v = some v.length := by
  rcases builtin_places h with hplain | rfl
  · have hword : c = reserved → isWordAt rest.head? = false :=
      fun heq => absurd hplain (heq ▸ by decide)
    rcases Category.matchLength_append (v := v) (builtin_holds h hword) with
      hsame | ⟨n, hn, hlonger⟩
    · rw [← hsame, hmatch]
    · cases hmatch.symm.trans hlonger
      exact absurd hn (Nat.lt_irrefl _)
  · obtain ⟨word, hword, htaken⟩ := reserved_taken hmatch
    rw [List.take_left] at htaken
    rw [htaken]
    exact reserved_word word hword

/-- A category that takes nothing from a text takes nothing from the front of it; reserved words
do so unless a word character follows. -/
theorem matchLength_none (h : c ∈ builtin.categories)
    (hword : c = reserved → isWordAt rest.head? = false)
    (hnone : c.matchLength (v ++ rest) = none) : c.matchLength v = none := by
  rcases Category.matchLength_append (v := v) (builtin_holds h hword) with hsame | ⟨n, -, hlonger⟩
  · rw [← hsame, hnone]
  · cases hnone.symm.trans hlonger

/-- Where reserved words are passed over for a longer piece, they are passed over for the piece
alone: it is a name that does not go on. -/
theorem reserved_passed (hsplit : builtin.categories = earlier ++ c :: later)
    (hreserved : reserved ∈ earlier) (hearlier : ∀ d ∈ earlier, d.matchLength (v ++ rest) = none)
    (hmatch : c.matchLength (v ++ rest) = some v.length) (hrest : ∀ e ∈ rest, inAlphabet e = true) :
    reserved.matchLength v = none := by
  by_contra hsome
  obtain ⟨m, hm⟩ := Option.ne_none_iff_exists'.mp hsome
  obtain ⟨word, hword, htaken⟩ := reserved_taken hm
  -- The piece starts as the word does, so it is a name.
  obtain ⟨e, v', rfl, he⟩ : ∃ e v', v = e :: v' ∧ lowerStart.has e = true := by
    obtain ⟨e, he, hstart⟩ := (Option.any_eq_true _ _).mp (keywords_start word hword)
    obtain ⟨word', hcons⟩ := List.head?_eq_some_iff.mp he
    have hprefix : e :: word' <+: v := by
      rw [← hcons, ← htaken]
      exact List.take_prefix m v
    obtain ⟨x, rfl⟩ := hprefix
    exact ⟨e, word' ++ x, rfl, hstart⟩
  have hname : names.matchLength (e :: v' ++ rest) = _ := names_matchLength (v' ++ rest) he
  rcases behind_reserved hsplit hreserved with rfl | hpassed
  · have hlength : ((v' ++ rest).takeWhile nameSet.has).length = v'.length := by
      have heq := hname.symm.trans hmatch
      rw [Option.some.injEq, List.length_cons] at heq
      omega
    have hbehind : isWordAt rest.head? = false := by
      cases rest with
      | nil => rfl
      | cons d x =>
        have hd := takeWhile_behind hlength d x rfl
        exact not_isWordChar_of_not_name (hrest d List.mem_cons_self) hd
    have hmem : reserved ∈ builtin.categories := by
      rw [hsplit]
      exact List.mem_append_left _ hreserved
    exact hsome (matchLength_none hmem (fun _ => hbehind) (hearlier reserved hreserved))
  · cases hname.symm.trans (hearlier names hpassed)

/-! ## Blanks behind a piece -/

/-- The text is at its end, or goes on with a blank. -/
def IsApart (w : List Char) : Prop := ∀ e x, w = e :: x → isBlank e = true

/-- A category that is not passed over takes the same from a text with a blank behind it. -/
theorem matchLength_apart (h : c ∈ builtin.categories) (hkept : c.discarded = false)
    (hw : IsApart w) : c.matchLength (v ++ w) = c.matchLength v := by
  cases w with
  | nil => rw [List.append_nil]
  | cons e x =>
    have hblank : isBlank e = true := hw e x rfl
    apply Category.matchLength_blocked (builtin_isAnchored c h)
    · intro s hs
      by_contra hhas
      have hsolid := CharSet.isSolid_of_has ((builtin_sets c h).2 hkept s hs)
        (Bool.not_eq_false _ ▸ hhas)
      rw [not_isBlank_of_isSolid hsolid] at hblank
      cases hblank
    · exact builtin_holds h fun _ => not_isWordChar_of_isBlank hblank

/-- Only blanks are passed over. -/
theorem builtin_discarded (h : c ∈ builtin.categories) (hdiscarded : c.discarded = true) :
    c = blanks := by
  have hothers : ∀ d ∈ builtinCategories.tail, d.discarded = false := by decide
  rcases List.mem_cons.mp (show c ∈ blanks :: builtinCategories.tail from h) with rfl | h
  · rfl
  · rw [hothers c h] at hdiscarded
    cases hdiscarded

/-- The first category with a match is the same one when the piece that it takes is set apart. -/
theorem isFirst_apart (h : builtin.IsFirst (v ++ rest) c v.length) (hkept : c.discarded = false)
    (hrest : ∀ e ∈ rest, inAlphabet e = true) (hw : IsApart w) :
    builtin.IsFirst (v ++ w) c v.length := by
  obtain ⟨hmem, hmatches⟩ := h.matches builtin_isAnchored
  have hsolid := isSolid_of_taken hmem hkept hmatches
  obtain ⟨earlier, later, hsplit, hearlier, hmatch⟩ := h
  have hpos := Category.matchLength_pos hmatch
  refine ⟨earlier, later, hsplit, fun d hd => ?_,
    (matchLength_apart hmem hkept hw).trans (matchLength_alone hmem hmatch)⟩
  have hdmem : d ∈ builtin.categories := by
    rw [hsplit]
    exact List.mem_append_left _ hd
  cases hdiscarded : d.discarded with
  | true =>
    obtain ⟨e, v', rfl⟩ := List.exists_cons_of_length_pos hpos
    have he := not_isBlank_of_isSolid (hsolid e List.mem_cons_self)
    rw [builtin_discarded hdmem hdiscarded, blanks_matchLength, List.cons_append,
      List.takeWhile_cons_of_neg (Bool.eq_false_iff.mp he), if_pos rfl]
  | false =>
    rw [matchLength_apart hdmem hdiscarded hw]
    by_cases hreserved : d = reserved
    · rw [hreserved] at hd ⊢
      exact reserved_passed hsplit hd hearlier hmatch hrest
    · exact matchLength_none hdmem (fun heq => absurd heq hreserved) (hearlier d hd)

/-- Blanks are a piece of their own, up to what is no blank. -/
theorem isFirst_blanks {gap : List Char} (hsome : gap ≠ []) (hblank : ∀ c ∈ gap, isBlank c = true)
    (hrest : rest.takeWhile isBlank = []) : builtin.IsFirst (gap ++ rest) blanks gap.length := by
  refine ⟨[], builtinCategories.tail, rfl, fun d hd => (List.not_mem_nil hd).elim, ?_⟩
  rw [blanks_matchLength, List.takeWhile_append_of_pos hblank, hrest, List.append_nil, if_neg hsome]

/-! ## Words with blanks between them -/

/-- The text is made of the words in their order, with blanks between each two of them, and
perhaps behind the last. -/
inductive Spaced : List (List Char) → List Char → Prop
  | nil : Spaced [] []
  | cons {word gap text : List Char} {words : List (List Char)}
      (blank : ∀ c ∈ gap, isBlank c = true) (apart : words ≠ [] → gap ≠ [])
      (others : Spaced words text) : Spaced (word :: words) (word ++ (gap ++ text))

variable {text left respaced : List Char} {words : List (List Char)} {segments : List Segment}

theorem Spaced.eq_nil (h : Spaced [] text) : text = [] := by
  cases h
  rfl

/-- A text of words starts with no blank. -/
theorem Spaced.takeWhile_isBlank (h : Spaced words text)
    (hsolid : ∀ word ∈ words, ∃ c rest, word = c :: rest ∧ isBlank c = false) :
    text.takeWhile isBlank = [] := by
  cases h with
  | nil => rfl
  | cons blank apart others =>
    obtain ⟨c, rest, rfl, hc⟩ := hsolid _ List.mem_cons_self
    rw [List.cons_append, List.takeWhile_cons_of_neg (Bool.eq_false_iff.mp hc)]

/-- What stands behind a word starts with a blank, if there is anything. -/
theorem Spaced.isApart {gap : List Char} (h : Spaced words text)
    (hblank : ∀ c ∈ gap, isBlank c = true) (hapart : words ≠ [] → gap ≠ []) :
    IsApart (gap ++ text) := by
  rintro e x he
  cases gap with
  | nil =>
    have hwords : words = [] := by
      by_contra hsome
      exact hapart hsome rfl
    subst hwords
    rw [h.eq_nil] at he
    cases he
  | cons c gap =>
    cases he
    exact hblank e List.mem_cons_self

/-- A token that is kept starts with no blank. -/
theorem kept_start (h : builtin.Cuts text segments left) :
    ∀ word ∈ (kept segments).map (·.text), ∃ c rest, word = c :: rest ∧ isBlank c = false := by
  intro word hword
  obtain ⟨segment, hsegment, rfl⟩ := List.mem_map.mp hword
  obtain ⟨hmem, hkept⟩ := List.mem_filter.mp hsegment
  obtain ⟨hcategory, hmatches⟩ := h.matches builtin_isAnchored segment hmem
  have hsolid := isSolid_of_taken hcategory (Bool.not_eq_eq_eq_not.mp hkept) hmatches
  obtain ⟨c, rest, htext⟩ := List.exists_cons_of_ne_nil (h.ne_nil segment hmem)
  rw [htext] at hsolid
  exact ⟨c, rest, htext, not_isBlank_of_isSolid (hsolid c List.mem_cons_self)⟩

/-- Blanks in front of a text are cut off, and the rest is cut as before. -/
theorem cuts_gap {gap : List Char} (h : builtin.Cuts text segments left)
    (hblank : ∀ c ∈ gap, isBlank c = true) (htext : text.takeWhile isBlank = []) :
    ∃ segments', builtin.Cuts (gap ++ text) segments' left ∧ kept segments' = kept segments := by
  cases gap with
  | nil => exact ⟨segments, h, rfl⟩
  | cons c gap =>
    exact ⟨_, .step (isFirst_blanks (List.cons_ne_nil c gap) hblank htext) h, rfl⟩

/-- The words of a text are cut from it in the same way however they are spaced. -/
theorem cuts_respaced (h : builtin.Cuts text segments left) (hleft : left = [])
    (hspaced : Spaced ((kept segments).map (·.text)) respaced) :
    ∃ segments', builtin.Cuts respaced segments' [] ∧ kept segments' = kept segments := by
  induction h generalizing respaced with
  | stop text =>
    rw [hspaced.eq_nil]
    exact ⟨[], .stop [], rfl⟩
  | @step c piece rest left segments first others ih =>
    subst hleft
    cases hdiscarded : c.discarded with
    | true =>
      rw [kept_discarded hdiscarded] at hspaced ⊢
      exact ih rfl hspaced
    | false =>
      rw [kept_cons hdiscarded] at hspaced ⊢
      cases hspaced with
      | @cons _ gap text _ hblank hapart hothers =>
        obtain ⟨behind, hbehind, hsame⟩ := ih rfl hothers
        obtain ⟨all, hall, hkept⟩ :=
          cuts_gap hbehind hblank (hothers.takeWhile_isBlank (kept_start others))
        have hlegal : ∀ e ∈ rest, inAlphabet e = true := by
          have hflatten := others.flatten
          rw [List.append_nil] at hflatten
          rw [hflatten]
          exact builtin_inAlphabet others
        have hgap := hothers.isApart hblank hapart
        refine ⟨_, .step (isFirst_apart first hdiscarded hlegal hgap) hall, ?_⟩
        rw [kept_cons hdiscarded, hkept, hsame]

/-- The tokens of a text are those of any text that spaces them in another way. -/
theorem builtin_tokenize_respaced {tokens : List Token} {lead : List Char}
    (h : builtin.tokenize text = .ok tokens) (hlead : ∀ c ∈ lead, isBlank c = true)
    (hspaced : Spaced (tokens.map (·.value.toList)) respaced) :
    ∃ tokens', builtin.tokenize (lead ++ respaced) = .ok tokens' ∧
      tokens'.map (fun token => (token.kind, token.value)) =
        tokens.map fun token => (token.kind, token.value) := by
  obtain ⟨segments, hcuts, rfl⟩ := tokenize_ok_iff.mp h
  rw [tokensOf_values] at hspaced
  obtain ⟨behind, hbehind, hsame⟩ := cuts_respaced hcuts rfl hspaced
  obtain ⟨all, hall, hkept⟩ :=
    cuts_gap hbehind hlead (hspaced.takeWhile_isBlank (kept_start hcuts))
  refine ⟨tokensOf all, tokenize_ok_iff.mpr ⟨all, hall, rfl⟩, ?_⟩
  rw [tokensOf_map, tokensOf_map, hkept, hsame]

/-- A name that starts as a reserved word does, an operator and a number, at first without any
blanks. -/
theorem builtin_tokenize_respaced_apis : ∃ tokens tokens',
    builtin.tokenize "apis+=1.5".toList = .ok tokens ∧
      builtin.tokenize "\tapis \n+= 1.5 ".toList = .ok tokens' ∧
      tokens'.map (fun token => (token.kind, token.value)) =
        tokens.map fun token => (token.kind, token.value) := by
  have hread : ((builtin.tokenize "apis+=1.5".toList).toOption.map fun tokens =>
      tokens.map (·.value.toList)) = some ["apis".toList, "+=".toList, "1.5".toList] := by
    decide +kernel
  cases hcut : builtin.tokenize "apis+=1.5".toList with
  | error d =>
    rw [hcut] at hread
    cases hread
  | ok tokens =>
    rw [hcut] at hread
    have hvalues : tokens.map (·.value.toList) = ["apis".toList, "+=".toList, "1.5".toList] :=
      Option.some.inj hread
    have hblank : ∀ gap ∈ ["\t", " \n", " "], gap.toList.all isBlank = true := by
      decide
    have hgap : ∀ gap ∈ ["\t", " \n", " "], ∀ c ∈ gap.toList, isBlank c = true :=
      fun gap hmem => List.all_eq_true.mp (hblank gap hmem)
    have hspaced : Spaced (tokens.map (·.value.toList)) "apis \n+= 1.5 ".toList := by
      rw [hvalues]
      exact .cons (hgap " \n" (by decide)) (by decide)
        (.cons (hgap " " (by decide)) (by decide) (.cons (hgap " " (by decide)) (by decide) .nil))
    obtain ⟨tokens', hrespaced, hsame⟩ :=
      builtin_tokenize_respaced hcut (hgap "\t" (by decide)) hspaced
    exact ⟨tokens, tokens', rfl, hrespaced, hsame⟩

end Tokenizer

end ApiSyntax
