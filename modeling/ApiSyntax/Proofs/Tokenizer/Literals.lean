/-
  ApiSyntax/Proofs/Tokenizer/Literals.lean --- what the numbers in a text are.

  A token is a match of the pattern of its category.  So the text of a real literal is
  digits, a point and digits, which always has a value, and the text of an integer
  literal is digits, which have a value up to the greatest 64-bit integer.
-/
import ApiSyntax.Number.RealText
import ApiSyntax.Proofs.Tokenizer.Partition
import ApiSyntax.Tokenizer.Builtin
import Mathlib.Data.List.TakeWhile

set_option autoImplicit false

namespace ApiSyntax

open Pattern

/-! ## Tokens -/

namespace Tokenizer

variable {t : Tokenizer}

/-- A token is a match of the pattern of a category of its kind. -/
theorem token_matches {text : List Char} {tokens : List Token} {token : Token}
    (hanchored : ∀ c ∈ t.categories, c.pattern.isAnchored = true)
    (hcut : t.tokenize text = .ok tokens) (h : token ∈ tokens) :
    ∃ c ∈ t.categories, c.kind = token.kind ∧ c.pattern.Matches token.value.toList := by
  obtain ⟨segments, hcuts, rfl⟩ := tokenize_ok_iff.mp hcut
  obtain ⟨segment, hsegment, hkind, hvalue⟩ := mem_tokensOf h
  obtain ⟨hmem, hmatches⟩ := hcuts.matches hanchored segment hsegment
  rw [hvalue] at hmatches
  exact ⟨segment.category, hmem, hkind, hmatches⟩

theorem builtin_isAnchored : ∀ c ∈ builtin.categories, c.pattern.isAnchored = true := by
  decide

/-! ## Numbers -/

/-- The text is a run of digits. -/
def IsDigits (cs : List Char) : Prop := cs ≠ [] ∧ ∀ c ∈ cs, isAsciiDigit c = true

theorem all_of_again {set : CharSet} {greedy : Bool} {u : List Char}
    (h : (again (char set) greedy).Matches u) : ∀ c ∈ u, set.has c = true := by
  generalize hp : again (char set) greedy = p at h
  induction h with
  | last => exact fun c hc => (List.not_mem_nil hc).elim
  | again first _ _ ih =>
    cases hp
    cases first with
    | char hc =>
      intro d hd
      rcases List.mem_cons.mp hd with rfl | hd
      · exact hc
      · exact ih rfl d hd
  | _ => cases hp

theorem digitSet_has (c : Char) : digitSet.has c = isAsciiDigit c := by
  simp [digitSet, CharSet.has, isAsciiDigit]

theorem isDigits_of_matches {u : List Char} (h : digits.Matches u) : IsDigits u := by
  cases h with
  | plus first others =>
    cases first with
    | @char _ c hc =>
      refine ⟨List.cons_ne_nil _ _, fun d hd => ?_⟩
      rw [← digitSet_has]
      rcases List.mem_cons.mp hd with rfl | hd
      · exact hc
      · exact all_of_again others d hd

/-- Digits, a point and digits. -/
theorem point_of_matches {text : List Char}
    (h : (inOrder [digits, char (.single '.'), digits]).Matches text) :
    ∃ u v, text = u ++ '.' :: v ∧ IsDigits u ∧ IsDigits v := by
  cases h with
  | seq whole others =>
    cases others with
    | seq point fraction =>
      cases point with
      | @char _ c hc =>
        rw [CharSet.has_single, decide_eq_true_eq] at hc
        subst hc
        exact ⟨_, _, rfl, isDigits_of_matches whole, isDigits_of_matches fraction⟩

/-- A match of a category belongs to what its pattern is apart from the anchor. -/
theorem matches_of_category {kind : TokenKind} {source : String} {p : Pattern} {u : List Char}
    (h : (category kind source p).pattern.Matches u) : p.Matches u := by
  cases h with
  | seq first second =>
    cases first
    exact second

section

variable {text : List Char} {tokens : List Token} {token : Token}
  (hcut : builtin.tokenize text = .ok tokens) (h : token ∈ tokens)
include hcut h

/-- A token of a kind that one category has is a match of that category. -/
theorem token_matches_only {kind : TokenKind} {c : Category} (hkind : token.is kind)
    (honly : builtin.categories.filter (·.kind.same kind) = [c]) :
    c.pattern.Matches token.value.toList := by
  obtain ⟨c', hc', htoken, hmatch⟩ := token_matches builtin_isAnchored hcut h
  have hfound : c' ∈ builtin.categories.filter (·.kind.same kind) := by
    rw [List.mem_filter, htoken]
    exact ⟨hc', hkind⟩
  rw [honly, List.mem_singleton] at hfound
  rwa [hfound] at hmatch

/-- The text of a real literal. -/
theorem real_text (hreal : token.is .real) :
    ∃ u v, token.value.toList = u ++ '.' :: v ∧ IsDigits u ∧ IsDigits v :=
  point_of_matches (matches_of_category (token_matches_only hcut h hreal rfl))

/-- The text of an integer literal. -/
theorem integer_text (hinteger : token.is .integer) : IsDigits token.value.toList :=
  isDigits_of_matches (matches_of_category (token_matches_only hcut h hinteger rfl))

end

end Tokenizer

/-! ## Values -/

open Tokenizer

variable {u v : List Char}

/-- Digits are taken as they are: there is no sign in front of them. -/
theorem takeSign_digits (h : IsDigits u) : takeSign (u ++ v) = (false, u ++ v) := by
  obtain ⟨hsome, hall⟩ := h
  cases u with
  | nil => exact absurd rfl hsome
  | cons c u =>
    have hc : isAsciiDigit c = true := hall c List.mem_cons_self
    have hplus : c ≠ '+' := fun hplus => absurd (hplus ▸ hc) (by decide)
    have hminus : c ≠ '-' := fun hminus => absurd (hminus ▸ hc) (by decide)
    simp [takeSign, hplus, hminus]

/-- Digits that are read as a 64-bit integer. -/
theorem readInt64_digits (h : IsDigits u) :
    readInt64 u =
      if decimalValue u ≤ 0x7fffffffffffffff then some (decimalValue u : Int) else none := by
  have hsign : takeSign u = (false, u) := by
    have happend := takeSign_digits (v := []) h
    rwa [List.append_nil] at happend
  have hvalue : unsigned? u = some (decimalValue u) := by
    obtain ⟨hsome, hall⟩ := h
    have hdigits : u.all isAsciiDigit = true := List.all_eq_true.mpr hall
    simp [unsigned?, hsome, hdigits]
  have hrange : inInt64 (decimalValue u) = decide (decimalValue u ≤ 0x7fffffffffffffff) := by
    rw [inInt64, Bool.eq_iff_iff]
    simp only [Bool.and_eq_true, decide_eq_true_eq]
    omega
  rw [readInt64, hsign]
  simp [hvalue, hrange]

/-- A number with a point always has a value. -/
theorem read_point (hu : IsDigits u) (hv : IsDigits v) :
    (Binary64.read (u ++ '.' :: v)).isSome := by
  have hwhole : (u ++ '.' :: v).takeWhile isAsciiDigit = u := by
    rw [List.takeWhile_append_of_pos hu.2]
    simp [isAsciiDigit]
  have hpoint : (u ++ '.' :: v).dropWhile isAsciiDigit = '.' :: v := by
    rw [List.dropWhile_append_of_pos hu.2]
    simp [isAsciiDigit]
  have hfraction : v.takeWhile isAsciiDigit = v := List.takeWhile_eq_self_iff.mpr hv.2
  have hrest : v.dropWhile isAsciiDigit = [] := List.dropWhile_eq_nil_iff.mpr hv.2
  have hmagnitude : (Binary64.readMagnitude (u ++ '.' :: v)).isSome := by
    simp [Binary64.readMagnitude, hwhole, hpoint, hfraction, hrest, hu.1, Binary64.readExponent]
  rw [Binary64.read, takeSign_digits hu]
  dsimp only
  split
  · rfl
  · split
    · rfl
    · rw [Option.isSome_map]
      exact hmagnitude

end ApiSyntax
