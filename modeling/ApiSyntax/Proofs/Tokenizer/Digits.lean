/-
  ApiSyntax/Proofs/Tokenizer/Digits.lean --- digits, and a minus in front of them.

  A run of digits is cut as one integer, however long it is: the only category that could
  take it before is the one of reals, and a real has a point.  A minus in front of it is an
  operator by itself, for no digit is part of an operator.

  Written in base ten, a number has digits that stand for it.  The text of an integer below
  zero has a minus in front of those of its absolute value.
-/
import ApiSyntax.Proofs.Tokenizer.LongestMatch

set_option autoImplicit false

namespace ApiSyntax

open Pattern

namespace Tokenizer

variable {c : Category} {e : Char} {u rest : List Char}

/-! ## Digits -/

/-- The category of integers. -/
def integers : Category := category .integer "[0-9]+" digits

/-- The category of reals. -/
def reals : Category :=
  category .real "[0-9]+\\.[0-9]+" (inOrder [digits, char (.single '.'), digits])

theorem isSolid_digit (h : isAsciiDigit e = true) : isSolid e = true := by
  have hdigit : e.isDigit = true := h
  rw [isSolid, Char.isAlphanum, hdigit, Bool.or_true, Bool.true_or]

/-- Blanks take nothing in front of a solid character. -/
theorem blanks_solid (h : isSolid e = true) : blanks.matchLength (e :: rest) = none := by
  have hnone : ¬ isBlank e = true := Bool.eq_false_iff.mp (not_isBlank_of_isSolid h)
  rw [blanks_matchLength, List.takeWhile_cons_of_neg hnone, if_pos rfl]

/-- A real has a point. -/
theorem reals_digits (h : ∀ d ∈ u, isAsciiDigit d = true) : reals.matchLength u = none := by
  by_contra hsome
  obtain ⟨n, hn⟩ := Option.ne_none_iff_exists'.mp hsome
  have hmatch := matches_of_matchEnd (p := reals.pattern) rfl (Option.filter_eq_some_iff.mp hn).1
  obtain ⟨v, w, htake, -, -⟩ := point_of_matches (matches_of_category hmatch)
  have hpoint : '.' ∈ u.take n := by
    rw [htake]
    exact List.mem_append_right _ List.mem_cons_self
  exact absurd (h '.' (List.mem_of_mem_take hpoint)) (by decide)

/-- Integers take all of a run of digits. -/
theorem integers_digits (h : IsDigits u) : integers.matchLength u = some u.length := by
  have hall : u.takeWhile digitSet.has = u :=
    List.takeWhile_eq_self_iff.mpr fun d hd => (digitSet_has d).trans (h.2 d hd)
  have hend : integers.pattern.matchEnd u = _ := matchEnd_run digitSet u
  rw [Category.matchLength_eq, hend, hall, if_neg h.1, Option.filter_some,
    if_pos (decide_eq_true (List.length_pos_iff.mpr h.1))]

theorem isFirst_digits (h : IsDigits u) : builtin.IsFirst u integers u.length := by
  refine ⟨[blanks, reals], builtinCategories.drop 3, rfl, ?_, integers_digits h⟩
  obtain ⟨e, rest, rfl⟩ := List.exists_cons_of_ne_nil h.1
  intro d hd
  rcases List.mem_pair.mp hd with rfl | rfl
  · exact blanks_solid (isSolid_digit (h.2 e List.mem_cons_self))
  · exact reals_digits h.2

/-- A run of digits is one piece. -/
theorem cuts_digits (h : IsDigits u) : builtin.Cuts u [⟨integers, u⟩] [] := by
  have hfirst : builtin.IsFirst (u ++ []) integers u.length := by
    rw [List.append_nil]
    exact isFirst_digits h
  have hcut := Cuts.step hfirst (.stop [])
  rwa [List.append_nil] at hcut

/-- A run of digits is one token. -/
theorem tokenize_digits (h : IsDigits u) :
    builtin.tokenize u = .ok [⟨.integer, String.ofList u, .start⟩] :=
  tokenize_ok_iff.mpr ⟨_, cuts_digits h, rfl⟩

/-! ## A minus in front -/

/-- The category of operators. -/
def operators : Category :=
  category .operator "[+\\-*/%<>!&|^~?][+\\-*/%<>!&|^~?=]*|==+" operatorRun

/-- A category takes nothing where the text starts as no match of it does. -/
theorem matchLength_start (hanchored : c.pattern.isAnchored = true)
    (h : ∀ s ∈ c.pattern.firsts, s.has e = false) : c.matchLength (e :: rest) = none := by
  by_contra hsome
  obtain ⟨n, hn⟩ := Option.ne_none_iff_exists'.mp hsome
  have hmatch := matches_of_matchEnd hanchored (Option.filter_eq_some_iff.mp hn).1
  obtain ⟨m, rfl⟩ := Nat.exists_eq_succ_of_ne_zero (Category.matchLength_pos hn).ne'
  obtain ⟨s, hs, hhas⟩ := hmatch.begins
  rw [h s hs] at hhas
  cases hhas

/-- What is looked up of the minus: the categories in front of operators do not start with it, and
alone it is an operator. -/
theorem minus_lookup :
    (∀ c ∈ builtinCategories.take 16, ∀ s ∈ c.pattern.firsts, s.has '-' = false) ∧
      operators.matchLength ['-'] = some 1 := by
  decide

/-- No digit is part of an operator. -/
theorem operators_digit (h : isAsciiDigit e = true) :
    ∀ s ∈ operators.pattern.sets, s.has e = false :=
  of_basic (P := fun e => isAsciiDigit e = true → ∀ s ∈ operators.pattern.sets, s.has e = false)
    (by decide) (isSolid_basic (isSolid_digit h)) h

/-- In front of a digit the minus is an operator by itself. -/
theorem isFirst_minus (h : isAsciiDigit e = true) :
    builtin.IsFirst ('-' :: e :: rest) operators 1 := by
  refine ⟨builtinCategories.take 16, builtinCategories.drop 17, rfl, fun d hd => ?_, ?_⟩
  · exact matchLength_start (builtin_isAnchored d (List.mem_of_mem_take hd)) (minus_lookup.1 d hd)
  · have hplaces : ∀ q ∈ operators.pattern.places, ∀ before,
        q.holds before (some e) = q.holds before none :=
      List.forall_mem_singleton.mpr fun _ => rfl
    have hblocked := Category.matchLength_blocked (v := ['-']) (x := rest) rfl (operators_digit h)
      hplaces
    exact hblocked.trans minus_lookup.2

/-- A minus and a run of digits are two tokens. -/
theorem tokenize_minus (h : IsDigits u) :
    builtin.tokenize ('-' :: u) =
      .ok [⟨.operator, "-", .start⟩, ⟨.integer, String.ofList u, ⟨0, 1, 1⟩⟩] := by
  obtain ⟨e, rest, hdigits⟩ := List.exists_cons_of_ne_nil h.1
  have hfirst : builtin.IsFirst ('-' :: u) operators 1 := by
    rw [hdigits] at h ⊢
    exact isFirst_minus (h.2 e List.mem_cons_self)
  have hcuts : builtin.Cuts ('-' :: u) [⟨operators, ['-']⟩, ⟨integers, u⟩] [] :=
    .cons hfirst (cuts_digits h)
  exact tokenize_ok_iff.mpr ⟨_, hcuts, rfl⟩

end Tokenizer

/-! ## Numbers in base ten -/

open Tokenizer

variable {v : Int}

theorem decimalValue_decimalDigits (n : Nat) : decimalValue (decimalDigits n) = n :=
  Nat.ofDigitChars_ten_toDigits

theorem isDigits_decimalDigits (n : Nat) : IsDigits (decimalDigits n) :=
  ⟨Nat.toDigits_ne_nil, fun _ hc => Nat.isDigit_of_mem_toDigits (by decide) (by decide) hc⟩

theorem toList_toString_of_nonneg (h : 0 ≤ v) : (toString v).toList = decimalDigits v.toNat := by
  rw [Int.toString_eq_repr, Int.repr_eq_if, if_pos h, Nat.toList_repr, decimalDigits]

theorem toList_toString_of_neg (h : v < 0) :
    (toString v).toList = '-' :: decimalDigits (-v).toNat := by
  rw [Int.toString_eq_repr, Int.repr_eq_if, if_neg (Int.not_le.mpr h), String.toList_append,
    Nat.toList_repr]
  rfl

end ApiSyntax
