/-
  ApiSyntax/Number/Binary64.lean --- real numbers in 64 bits, in exact arithmetic.

  A finite value is `m * 2 ^ q`.  Everything here works on that pair in `Nat`:
  `ofRatio` rounds a quotient to the nearest value, an even mantissa on a tie, and
  `shortest` finds the fewest decimal digits that still round to the value.
-/
import ApiSyntax.Number.Digits

set_option autoImplicit false

namespace ApiSyntax

/-! ## Rounding -/

/-- The quotient `num / den` rounded to the nearest whole number, to the even one on a tie. -/
def roundDiv (num den : Nat) : Nat :=
  let q := num / den
  let twice := 2 * (num % den)
  if twice < den then q
  else if den < twice then q + 1
  else q + q % 2

/-- A rounded quotient is within half a unit. -/
theorem roundDiv_within {num den : Nat} (h : 0 < den) :
    2 * num ≤ (2 * roundDiv num den + 1) * den ∧
      2 * (roundDiv num den * den) ≤ 2 * num + den := by
  have hq : den * (num / den) + num % den = num := Nat.div_add_mod num den
  have hr : num % den < den := Nat.mod_lt num h
  have hparity : (num / den) % 2 = 0 ∨ (num / den) % 2 = 1 := by omega
  simp only [roundDiv]
  generalize num / den = q at hq hparity ⊢
  generalize num % den = r at hq hr ⊢
  have hcomm : den * q = q * den := Nat.mul_comm den q
  split
  · exact ⟨by rw [Nat.add_mul, Nat.mul_assoc]; omega, by omega⟩
  · split
    · refine ⟨?_, ?_⟩
      · rw [Nat.add_mul, Nat.mul_assoc, Nat.add_mul]; omega
      · rw [Nat.add_mul]; omega
    · obtain hzero | hone := hparity
      · rw [hzero]
        exact ⟨by rw [Nat.add_mul, Nat.mul_assoc]; simp only [Nat.add_zero]; omega,
          by simp only [Nat.add_zero]; omega⟩
      · rw [hone]
        refine ⟨?_, ?_⟩
        · rw [Nat.add_mul, Nat.mul_assoc, Nat.add_mul]; omega
        · rw [Nat.add_mul]; omega

/-- The bits of a 64-bit real number. -/
structure Binary64 where
  bits : Nat
deriving DecidableEq, Repr, Inhabited

namespace Binary64

/-- The bits that mark an infinite value. -/
def infinityBits : Nat := 0x7ff * Nat.pow 2 52

/-- The sign bit. -/
def signBit : Nat := Nat.pow 2 63

/-- The value with the sign `negative`. -/
def signed (negative : Bool) (magnitude : Nat) : Binary64 :=
  ⟨if negative then signBit + magnitude else magnitude⟩

/-- The value is below zero, or is the zero that is written with a minus. -/
def isNegative (x : Binary64) : Bool := signBit ≤ x.bits

/-- The bits without the sign. -/
def magnitude (x : Binary64) : Nat := x.bits % signBit

/-- Neither infinite nor a mark for no number. -/
def isFinite (x : Binary64) : Bool := x.magnitude < infinityBits

/-- A finite magnitude is `m * 2 ^ (e - 1074)` for this pair `(m, e)`, and the bits of
that pair are `e * 2 ^ 52 + m`. -/
def parts (magnitude : Nat) : Nat × Nat :=
  let unit := Nat.pow 2 52
  if magnitude < unit then (magnitude, 0) else (unit + magnitude % unit, magnitude / unit - 1)

/-- The mantissa of `num / den` at the exponent `e`, rounded. -/
def mantissaAt (num den e : Nat) : Nat :=
  if e ≤ 1074 then roundDiv (num * Nat.pow 2 (1074 - e)) den
  else roundDiv num (den * Nat.pow 2 (e - 1074))

/-- `num / den` is at least `2 ^ 53` units of the exponent `e`. -/
def overflowsAt (num den e : Nat) : Bool :=
  if e ≤ 1074 then Nat.pow 2 53 * den ≤ num * Nat.pow 2 (1074 - e)
  else Nat.pow 2 53 * (den * Nat.pow 2 (e - 1074)) ≤ num

/-- The magnitude nearest to `num / den`.  The exponent is the least one whose
mantissa fits; a mantissa that rounds up to `2 ^ 53` carries into the exponent by
the addition, and what is too large becomes infinite. -/
def ofRatio (num den : Nat) : Nat :=
  let guess := Nat.log2 num + 1074 - Nat.log2 den - 53
  let e := if overflowsAt num den guess then guess + 1 else guess
  let m := mantissaAt num den e
  let bits := e * Nat.pow 2 52 + m
  if infinityBits ≤ bits then infinityBits else bits

/-- The magnitude nearest to `digits * 10 ^ exponent`.  Far outside the range the
powers are not worth computing. -/
def ofDecimal (digits : Nat) (exponent : Int) : Nat :=
  if digits = 0 then 0
  else
    let top : Int := (decimalDigits digits).length + exponent
    if 310 < top then infinityBits
    else if top < -330 then 0
    else if 0 ≤ exponent then ofRatio (digits * Nat.pow 10 exponent.toNat) 1
    else ofRatio digits (Nat.pow 10 (-exponent).toNat)

/-! ## The fewest digits -/

/-- A decimal number `digits * 10 ^ exponent`. -/
structure Decimal where
  digits : Nat
  exponent : Int
deriving DecidableEq, Repr, Inhabited

/-- Four times the value and the two ends of the interval of reals that round to it,
over a common power of two, with the scale that makes them whole numbers. -/
structure Interval where
  low : Nat
  value : Nat
  high : Nat
  /-- All three are multiplied by `2 ^ up` and divided by `2 ^ down`. -/
  up : Nat
  down : Nat
  /-- The ends themselves round to the value. -/
  closed : Bool

/-- The interval of a positive magnitude.  Below a power of two the gap is half as wide. -/
def interval (magnitude : Nat) : Interval :=
  let (m, e) := parts magnitude
  let below := if m = Nat.pow 2 52 ∧ e ≠ 0 then 1 else 2
  { low := 4 * m - below, value := 4 * m, high := 4 * m + 2,
    up := e - 1076, down := 1076 - e, closed := m % 2 = 0 }

/-- The candidates of the grid `10 ^ k`: `num / den` is the value in units of the grid. -/
def onGrid (i : Interval) (k : Int) : Option Nat :=
  let up := Nat.pow 2 i.up * Nat.pow 10 (-k).toNat
  let den := Nat.pow 2 i.down * Nat.pow 10 k.toNat
  let floor := i.value * up / den
  let inside (d : Nat) : Bool :=
    if i.closed then i.low * up ≤ d * den && d * den ≤ i.high * up
    else i.low * up < d * den && d * den < i.high * up
  match inside floor, inside (floor + 1) with
  | false, false => none
  | true, false => some floor
  | false, true => some (floor + 1)
  | true, true => some (roundDiv (i.value * up) den)

/-- The first hit on the grids `10 ^ k`, `10 ^ (k - 1)`, and so on. -/
def firstHit (i : Interval) : Nat → Int → Option Decimal
  | 0, _ => none
  | fuel + 1, k =>
      match onGrid i k with
      | some digits => if digits = 0 then firstHit i fuel (k - 1) else some ⟨digits, k⟩
      | none => firstHit i fuel (k - 1)

/-- Zeros at the end of the digits go into the exponent. -/
def dropZeros : Nat → Decimal → Decimal
  | 0, d => d
  | fuel + 1, d =>
      if d.digits ≠ 0 ∧ d.digits % 10 = 0 then dropZeros fuel ⟨d.digits / 10, d.exponent + 1⟩ else d

/-- An exponent of ten that the magnitude does not reach, from its exponent of two. -/
def topExponent (magnitude : Nat) : Int :=
  let (m, e) := parts magnitude
  ((Nat.log2 m : Int) + e - 1074) * 30103 / 100000 + 1

/-- The decimal with the fewest digits that rounds to a positive magnitude; of two the
nearer, of two equally near the even one.  Eighteen grids always hold a hit. -/
def shortest (magnitude : Nat) : Decimal :=
  let found := firstHit (interval magnitude) 24 (topExponent magnitude)
  dropZeros 24 (found.getD ⟨0, 0⟩)

end Binary64

end ApiSyntax
