/-
  ApiSyntax/Proofs/Tokenizer/Alphabet.lean --- the characters of the language.

  Blanks are one alphabet, letters, digits and signs another; all of these but the blanks
  are among the first 128 characters, so what holds of each of them is looked up.  A
  category takes blanks only or no blank at all, and each character of the alphabet is
  taken by some category whatever stands behind it.  So a cut stops at the first character
  that is not of the alphabet, and nowhere else.
-/
import ApiSyntax.Proofs.Tokenizer.Literals
import ApiSyntax.Proofs.Tokenizer.Partition

set_option autoImplicit false

namespace ApiSyntax

open Pattern

/-! ## The alphabet -/

/-- The signs of the language. -/
def signs : List Char :=
  ['_', ':', ',', '.', '(', ')', '[', ']', '\x7b', '\x7d', '+', '-', '*', '/', '%', '<', '>', '!',
    '&', '|', '^', '~', '?', '=', '@']

/-- A letter or a digit of the basic alphabet, or a sign. -/
def isSolid (c : Char) : Bool := c.isAlphanum || signs.contains c

/-- The characters that a text of the language is made of. -/
def inAlphabet (c : Char) : Bool := isBlank c || isSolid c

/-- What holds of the first 128 characters can be looked up. -/
theorem of_basic {P : Char → Prop} (h : ∀ n < 128, P (Char.ofNat n)) {c : Char}
    (hc : c.toNat < 128) : P c := by
  have hp := h c.toNat hc
  rwa [Char.ofNat_toNat] at hp

theorem isSolid_basic {c : Char} (h : isSolid c = true) : c.toNat < 128 := by
  have hsigns : (signs.all fun d => d.toNat < 128) = true := by decide
  rcases (Bool.or_eq_true _ _).mp h with hword | hsign
  · rcases (Bool.or_eq_true _ _).mp hword with hletter | hdigit
    · rcases (Bool.or_eq_true _ _).mp hletter with hupper | hlower
      · have hend : c.val ≤ 'Z'.val := (of_decide_eq_true hupper).2
        exact Nat.lt_of_le_of_lt hend (by decide)
      · have hend : c.val ≤ 'z'.val := of_decide_eq_true ((Bool.and_eq_true _ _).mp hlower).2
        exact Nat.lt_of_le_of_lt hend (by decide)
    · exact Nat.lt_of_le_of_lt (Char.isDigit_iff_toNat.mp hdigit).2 (by decide)
  · exact of_decide_eq_true (List.all_eq_true.mp hsigns c (List.contains_iff_mem.mp hsign))

/-- What is looked up of each solid character: it is no blank, it is a word character if a name goes
on with it, and some category takes it that does not look behind it. -/
theorem solid_lookup : ∀ n < 128, isSolid (Char.ofNat n) = true →
    isBlank (Char.ofNat n) = false ∧
      isWordChar (Char.ofNat n) = Tokenizer.nameSet.has (Char.ofNat n) ∧
      ∃ d ∈ Tokenizer.builtin.categories, d.pattern.places = [.textStart] ∧
        d.pattern.sets.any (·.has (Char.ofNat n)) = true ∧
        d.matchLength [Char.ofNat n] = some 1 := by
  decide +kernel

theorem not_isBlank_of_isSolid {c : Char} (h : isSolid c = true) : isBlank c = false :=
  of_basic (P := fun c => isSolid c = true → isBlank c = false)
    (fun n hn hsolid => (solid_lookup n hn hsolid).1) (isSolid_basic h) h

/-- The solid word characters are what a name goes on with. -/
theorem isWordChar_of_isSolid {c : Char} (h : isSolid c = true) :
    isWordChar c = Tokenizer.nameSet.has c :=
  of_basic (P := fun c => isSolid c = true → isWordChar c = Tokenizer.nameSet.has c)
    (fun n hn hsolid => (solid_lookup n hn hsolid).2.1) (isSolid_basic h) h

/-- No blank is a word character. -/
theorem not_isWordChar_of_isBlank {c : Char} (h : isBlank c = true) : isWordChar c = false := by
  have hlookup : ∀ r ∈ blankRanges, ∀ n ∈ List.range' r.1 (r.2 + 1 - r.1),
      inRanges wordRanges n = false := by
    decide +kernel
  obtain ⟨r, hr, hlow, hhigh⟩ := mem_of_inRanges h
  exact hlookup r hr c.toNat (List.mem_range'_1.mpr (by omega))

/-- The set is given by ranges of solid characters. -/
def CharSet.isSolid : CharSet → Bool
  | ranges pairs => pairs.all fun p =>
      (List.range' p.1.toNat (p.2.toNat + 1 - p.1.toNat)).all fun n =>
        ApiSyntax.isSolid (Char.ofNat n)
  | _ => false

theorem CharSet.isSolid_of_has {set : CharSet} {c : Char} (h : set.isSolid = true)
    (hc : set.has c = true) : ApiSyntax.isSolid c = true := by
  cases set with
  | ranges pairs =>
    obtain ⟨p, hp, hin⟩ := List.any_eq_true.mp hc
    rw [Bool.and_eq_true, decide_eq_true_eq, decide_eq_true_eq] at hin
    have hlow : p.1.toNat ≤ c.toNat := hin.1
    have hhigh : c.toNat ≤ p.2.toNat := hin.2
    have hpair := List.all_eq_true.mp (List.all_eq_true.mp h p hp) c.toNat
      (List.mem_range'_1.mpr (by omega))
    rwa [Char.ofNat_toNat] at hpair
  | _ => exact absurd h Bool.false_ne_true

/-! ## Categories -/

namespace Category

variable {c : Category} {v x : List Char}

/-- What a category takes from a text that goes on, while no place of it notices. -/
theorem matchLength_append
    (hplaces : ∀ q ∈ c.pattern.places, ∀ before, q.holds before x.head? = q.holds before none) :
    c.matchLength (v ++ x) = c.matchLength v ∨
      ∃ n, v.length < n ∧ c.matchLength (v ++ x) = some n := by
  rcases matchEnd_append (v := v) hplaces with hend | ⟨n, hn, hend⟩
  · rw [matchLength_eq, hend]
    exact .inl rfl
  · have hpos : 0 < n := Nat.zero_lt_of_lt hn
    refine .inr ⟨n, hn, ?_⟩
    rw [matchLength_eq, hend, Option.filter_some, if_pos (decide_eq_true hpos)]

/-- What a category takes from a text that goes on with a character that it takes nowhere. -/
theorem matchLength_blocked {d : Char} (hanchored : c.pattern.isAnchored = true)
    (hsets : ∀ s ∈ c.pattern.sets, s.has d = false)
    (hplaces : ∀ q ∈ c.pattern.places, ∀ before, q.holds before (some d) = q.holds before none) :
    c.matchLength (v ++ d :: x) = c.matchLength v := by
  rw [matchLength_eq, matchEnd_blocked x hanchored hsets hplaces]
  rfl

end Category

namespace Tokenizer

/-- The category of blanks. -/
def blanks : Category := (category .whitespace "\\s+" (plus (char .blank) true)).discard

/-- The category of blanks takes all the blanks at the front. -/
theorem blanks_matchLength (text : List Char) :
    blanks.matchLength text =
      if text.takeWhile isBlank = [] then none else some (text.takeWhile isBlank).length := by
  have hend : blanks.pattern.matchEnd text = _ := matchEnd_run .blank text
  have hset : CharSet.has .blank = isBlank := rfl
  rw [Category.matchLength_eq, hend, hset]
  by_cases hnone : text.takeWhile isBlank = []
  · rw [if_pos hnone]
    rfl
  · rw [if_neg hnone, Option.filter_some,
      if_pos (decide_eq_true (List.length_pos_iff.mpr hnone))]

/-- A category takes blanks only and is passed over, or takes solid characters only. -/
theorem builtin_sets : ∀ c ∈ builtin.categories,
    (c.discarded = true → c.pattern.sets = [.blank]) ∧
      (c.discarded = false → ∀ s ∈ c.pattern.sets, s.isSolid = true) := by
  decide +kernel

/-- A solid character is taken by a category that does not look behind it. -/
theorem builtin_takes {c : Char} (h : isSolid c = true) : ∃ d ∈ builtin.categories,
    d.pattern.places = [.textStart] ∧ d.matchLength [c] = some 1 := by
  refine of_basic (P := fun c => isSolid c = true → ∃ d ∈ builtin.categories,
    d.pattern.places = [.textStart] ∧ d.matchLength [c] = some 1) ?_ (isSolid_basic h) h
  intro n hn hsolid
  obtain ⟨d, hd, hplaces, -, hone⟩ := (solid_lookup n hn hsolid).2.2
  exact ⟨d, hd, hplaces, hone⟩

/-- At a character of the alphabet some category has a match. -/
theorem builtin_first {c : Char} (rest : List Char) (h : inAlphabet c = true) :
    builtin.first? (c :: rest) ≠ none := by
  intro hnone
  rw [first?_eq_none_iff] at hnone
  rcases (Bool.or_eq_true _ _).mp h with hblank | hsolid
  · have htaken := hnone blanks List.mem_cons_self
    rw [blanks_matchLength, List.takeWhile_cons_of_pos hblank,
      if_neg (List.cons_ne_nil _ _)] at htaken
    cases htaken
  · obtain ⟨d, hd, hplaces, hone⟩ := builtin_takes hsolid
    have hbehind : d.matchLength ([c] ++ rest) = d.matchLength [c] ∨
        ∃ n, [c].length < n ∧ d.matchLength ([c] ++ rest) = some n := by
      apply Category.matchLength_append
      rw [hplaces]
      exact List.forall_mem_singleton.mpr fun _ => rfl
    have htaken : d.matchLength ([c] ++ rest) = none := hnone d hd
    rw [hone, htaken] at hbehind
    rcases hbehind with hsame | ⟨n, -, hlonger⟩
    · cases hsame
    · cases hlonger

/-! ## Cuts of a text -/

variable {c : Category} {piece text left : List Char} {segments : List Segment}

/-- What is passed over is blanks. -/
theorem isBlank_of_taken (h : c ∈ builtin.categories) (hdiscarded : c.discarded = true)
    (hmatches : c.pattern.Matches piece) : ∀ d ∈ piece, isBlank d = true := by
  intro d hd
  obtain ⟨s, hs, hhas⟩ := hmatches.mem_sets d hd
  rw [(builtin_sets c h).1 hdiscarded, List.mem_singleton] at hs
  rwa [hs] at hhas

/-- What is not passed over is solid. -/
theorem isSolid_of_taken (h : c ∈ builtin.categories) (hkept : c.discarded = false)
    (hmatches : c.pattern.Matches piece) : ∀ d ∈ piece, isSolid d = true := by
  intro d hd
  obtain ⟨s, hs, hhas⟩ := hmatches.mem_sets d hd
  exact CharSet.isSolid_of_has ((builtin_sets c h).2 hkept s hs) hhas

theorem builtin_inAlphabet (h : builtin.Cuts text segments left) :
    ∀ d ∈ (segments.map (·.text)).flatten, inAlphabet d = true := by
  induction h with
  | stop text => exact fun d hd => (List.not_mem_nil hd).elim
  | @step c piece rest left segments first others ih =>
    obtain ⟨hmem, hmatches⟩ := first.matches builtin_isAnchored
    rw [List.map_cons, List.flatten_cons]
    refine List.forall_mem_append.mpr ⟨fun d hd => (Bool.or_eq_true _ _).mpr ?_, ih⟩
    cases hdiscarded : c.discarded with
    | true => exact .inl (isBlank_of_taken hmem hdiscarded hmatches d hd)
    | false => exact .inr (isSolid_of_taken hmem hdiscarded hmatches d hd)

/-- The pieces that are kept are the text without its blanks. -/
theorem kept_flatten (h : builtin.Cuts text segments left) :
    ((kept segments).map (·.text)).flatten =
      (segments.map (·.text)).flatten.filter (!isBlank ·) := by
  induction h with
  | stop text => rfl
  | @step c piece rest left segments first others ih =>
    obtain ⟨hmem, hmatches⟩ := first.matches builtin_isAnchored
    rw [List.map_cons, List.flatten_cons, List.filter_append, ← ih]
    cases hdiscarded : c.discarded with
    | true =>
      have hnone : piece.filter (!isBlank ·) = [] := by
        apply List.filter_eq_nil_iff.mpr
        intro d hd
        rw [isBlank_of_taken hmem hdiscarded hmatches d hd]
        exact Bool.false_ne_true
      rw [hnone, List.nil_append, kept_discarded hdiscarded]
    | false =>
      have hall : piece.filter (!isBlank ·) = piece := by
        apply List.filter_eq_self.mpr
        intro d hd
        rw [not_isBlank_of_isSolid (isSolid_of_taken hmem hdiscarded hmatches d hd)]
        rfl
      rw [hall, kept_cons hdiscarded, List.map_cons, List.flatten_cons]

/-- A cut stops only at a character that is not of the alphabet. -/
theorem builtin_isStuck (h : builtin.IsStuck left) :
    left = [] ∨ ∃ c rest, left = c :: rest ∧ inAlphabet c = false := by
  cases left with
  | nil => exact .inl rfl
  | cons c rest =>
    refine .inr ⟨c, rest, rfl, ?_⟩
    have hnone := h.resolve_left (List.cons_ne_nil c rest)
    exact Bool.eq_false_iff.mpr fun hc => builtin_first rest hc hnone

/-- The first character that is not of the alphabet has one place in a text. -/
theorem inAlphabet_split {front behind front' behind' : List Char} {c c' : Char}
    (h : front ++ c :: behind = front' ++ c' :: behind')
    (hfront : ∀ d ∈ front, inAlphabet d = true) (hc : inAlphabet c = false)
    (hfront' : ∀ d ∈ front', inAlphabet d = true) (hc' : inAlphabet c' = false) :
    front = front' ∧ c = c' := by
  have htaken : ∀ {u v : List Char} {d : Char}, (∀ e ∈ u, inAlphabet e = true) →
      inAlphabet d = false → (u ++ d :: v).takeWhile inAlphabet = u := by
    intro u v d hu hd
    rw [List.takeWhile_append_of_pos hu, List.takeWhile_cons_of_neg (Bool.eq_false_iff.mp hd),
      List.append_nil]
  have hsame : front = front' := by rw [← htaken hfront hc, h, htaken hfront' hc']
  rw [hsame] at h
  exact ⟨hsame, (List.cons.inj (List.append_cancel_left h)).1⟩

/-- What is quoted where the text goes on with a character that is no blank. -/
theorem fragment_cons {c : Char} (rest : List Char) (hc : isBlank c = false) :
    (fragment (c :: rest)).head? = some c ∧ (∀ d ∈ fragment (c :: rest), isBlank d = false) ∧
      (fragment (c :: rest)).length ≤ 16 := by
  have hword : fragment (c :: rest) = (c :: rest.takeWhile fun d => !isBlank d).take 16 := by
    rw [fragment, List.takeWhile_cons_of_pos (by rw [hc]; rfl)]
    rfl
  rw [hword]
  refine ⟨rfl, fun d hd => ?_, List.length_take_le _ _⟩
  rcases List.mem_cons.mp (List.mem_of_mem_take hd) with rfl | hd
  · exact hc
  · simpa using List.mem_takeWhile_imp hd

/-- The texts that the tokenizer of the language accepts are those of the alphabet, and the
tokens hold all of such a text but its blanks.  Any other text fails at the first character
that is not of the alphabet. -/
theorem builtin_tokenize_alphabet (text : List Char) :
    ((∃ tokens, builtin.tokenize text = .ok tokens) ↔ ∀ c ∈ text, inAlphabet c = true) ∧
    (∀ tokens, builtin.tokenize text = .ok tokens →
      (tokens.map (·.value.toList)).flatten = text.filter (!isBlank ·)) ∧
    ∀ front c behind, text = front ++ c :: behind → (∀ d ∈ front, inAlphabet d = true) →
      inAlphabet c = false →
      ∃ quoted, builtin.tokenize text =
          .error ((Diagnostic.of (.lexicalError (String.ofList quoted))).placed
            (Span.past front)) ∧
        quoted.head? = some c ∧ (∀ d ∈ quoted, isBlank d = false) ∧ quoted.length ≤ 16 := by
  obtain ⟨segments, left, hcuts, hstuck⟩ := builtin.exists_cuts text
  have hflatten := hcuts.flatten
  have hlegal := builtin_inAlphabet hcuts
  have hmade := tokenize_of_cuts hcuts hstuck
  rcases builtin_isStuck hstuck with rfl | ⟨d, rest, rfl, hd⟩
  · rw [List.append_nil] at hflatten
    rw [← hflatten] at hlegal
    refine ⟨⟨fun _ => hlegal, fun _ => ⟨_, hmade⟩⟩, fun tokens hok => ?_, ?_⟩
    · cases hmade.symm.trans hok
      rw [tokensOf_values, kept_flatten hcuts, ← hflatten]
    · rintro front c behind rfl hfront hc
      have hin := hlegal c (List.mem_append_right _ List.mem_cons_self)
      rw [hc] at hin
      cases hin
  · refine ⟨⟨?_, ?_⟩, ?_, ?_⟩
    · rintro ⟨tokens, hok⟩
      cases hmade.symm.trans hok
    · intro hall
      have hin := hall d (by rw [hflatten]; exact List.mem_append_right _ List.mem_cons_self)
      rw [hd] at hin
      cases hin
    · intro tokens hok
      cases hmade.symm.trans hok
    · intro front c behind hsplit hfront hc
      obtain ⟨rfl, rfl⟩ := inAlphabet_split (hsplit.symm.trans hflatten) hfront hc hlegal hd
      have hblank : isBlank c = false := (Bool.or_eq_false_iff.mp hc).1
      exact ⟨fragment (c :: rest), hmade, fragment_cons rest hblank⟩

/-- A currency sign on the second line, behind a name and a number. -/
theorem builtin_tokenize_alphabet_currency :
    ∃ quoted, builtin.tokenize "price\n 12€ x".toList =
        .error ((Diagnostic.of (.lexicalError (String.ofList quoted))).placed ⟨1, 3, 9⟩) ∧
      quoted.head? = some '€' ∧ (∀ d ∈ quoted, isBlank d = false) ∧ quoted.length ≤ 16 := by
  have hsplit : "price\n 12€ x".toList = "price\n 12".toList ++ '€' :: " x".toList := by
    decide +kernel
  have hpast : Span.past "price\n 12".toList = ⟨1, 3, 9⟩ := by
    decide +kernel
  have hfront : ("price\n 12".toList.all inAlphabet) = true := by
    decide +kernel
  rw [← hpast]
  exact (builtin_tokenize_alphabet "price\n 12€ x".toList).2.2 _ '€' _ hsplit
    (List.all_eq_true.mp hfront) (by decide +kernel)

end Tokenizer

end ApiSyntax
