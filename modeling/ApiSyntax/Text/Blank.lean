/-
  ApiSyntax/Text/Blank.lean --- sets of characters as sorted ranges, and the blanks.

  A set of characters is a list of inclusive ranges of code points in rising
  order, so a search stops at the first range that starts too late.
-/
set_option autoImplicit false

namespace ApiSyntax

/-! ## Ranges -/

/-- The code point `n` lies in one of the ranges, which rise. -/
def inRanges : List (Nat × Nat) → Nat → Bool
  | [], _ => false
  | (lo, hi) :: rest, n => lo ≤ n && (n ≤ hi || inRanges rest n)

theorem mem_of_inRanges {rs : List (Nat × Nat)} {n : Nat} (h : inRanges rs n = true) :
    ∃ r ∈ rs, r.1 ≤ n ∧ n ≤ r.2 := by
  induction rs with
  | nil => simp [inRanges] at h
  | cons r rs ih =>
    obtain ⟨lo, hi⟩ := r
    simp only [inRanges, Bool.and_eq_true, Bool.or_eq_true, decide_eq_true_eq] at h
    obtain ⟨hlo, hhi | hrest⟩ := h
    · exact ⟨(lo, hi), by simp, hlo, hhi⟩
    · obtain ⟨r, hr, hn⟩ := ih hrest
      exact ⟨r, by simp [hr], hn⟩

/-! ## Blanks -/

/-- The code points of the property `White_Space`. -/
def blankRanges : List (Nat × Nat) :=
  [(0x9, 0xD), (0x20, 0x20), (0x85, 0x85), (0xA0, 0xA0), (0x1680, 0x1680), (0x2000, 0x200A),
   (0x2028, 0x2029), (0x202F, 0x202F), (0x205F, 0x205F), (0x3000, 0x3000)]

/-- A blank: white space in any script. -/
def isBlank (c : Char) : Bool := inRanges blankRanges c.toNat

end ApiSyntax
