/-
  ApiSyntax/Number/Digits.lean --- numbers written in digits, and 64-bit integers.

  `digitsValue` reads a run of digits in any base as a number; `decimalDigits`
  writes a number in base ten.  `readInt64` is the whole syntax of a 64-bit
  integer: an optional sign and at least one digit, and a value in range.
-/
set_option autoImplicit false

namespace ApiSyntax

/-! ## Digits -/

/-- A decimal digit of the basic alphabet. -/
def isAsciiDigit (c : Char) : Bool := '0' ≤ c && c ≤ '9'

/-- The value of a character as a digit of base sixteen. -/
def hexValue? (c : Char) : Option Nat :=
  if isAsciiDigit c then some (c.toNat - '0'.toNat)
  else if 'a' ≤ c ∧ c ≤ 'f' then some (c.toNat - 'a'.toNat + 10)
  else if 'A' ≤ c ∧ c ≤ 'F' then some (c.toNat - 'A'.toNat + 10)
  else none

/-- The number that a run of decimal digits stands for, after the number `n` read so far. -/
def decimalFrom (n : Nat) (cs : List Char) : Nat :=
  cs.foldl (fun n c => 10 * n + (c.toNat - '0'.toNat)) n

/-- The number that a run of decimal digits stands for. -/
def decimalValue (cs : List Char) : Nat := decimalFrom 0 cs

/-- The decimal digits of a number, without leading zeros. -/
def decimalDigits (n : Nat) : List Char := Nat.toDigits 10 n

/-- One digit of base sixteen, in lower case. -/
def hexDigit (n : Nat) : Char := Nat.digitChar (n % 16)

/-- The last `width` digits of a number in base sixteen. -/
def hexDigits : Nat → Nat → List Char
  | 0, _ => []
  | width + 1, n => hexDigits width (n / 16) ++ [hexDigit n]

/-- The number that a run of digits of base sixteen stands for. -/
def hexValue (cs : List Char) : Option Nat :=
  cs.foldlM (fun n c => (hexValue? c).map fun d => 16 * n + d) 0

/-! ## 64-bit integers -/

/-- The value lies in the range of 64-bit integers. -/
def inInt64 (n : Int) : Bool := -0x8000000000000000 ≤ n && n < 0x8000000000000000

/-- The value of an unsigned run of digits; a run has at least one. -/
def unsigned? (cs : List Char) : Option Nat :=
  if !cs.isEmpty && cs.all isAsciiDigit then some (decimalValue cs) else none

/-- An optional sign in front of a text: true for a minus. -/
def takeSign : List Char → Bool × List Char
  | '+' :: cs => (false, cs)
  | '-' :: cs => (true, cs)
  | cs => (false, cs)

/-- The 64-bit integer that a text writes, if it writes one. -/
def readInt64 (cs : List Char) : Option Int :=
  let (negative, digits) := takeSign cs
  match unsigned? digits with
  | none => none
  | some n =>
      let value : Int := if negative then -(n : Int) else n
      if inInt64 value then some value else none

end ApiSyntax
