/-
  ApiSyntax/Number/RealText.lean --- real numbers as text.

  `Binary64.read` takes what a real literal may be: a sign, then the word for an
  infinite value or for no number, or digits with a point and an exponent.
  `Binary64.text` writes the fewest digits that read back, with a point for
  moderate sizes and with an exponent for the rest.
-/
import ApiSyntax.Number.Binary64

set_option autoImplicit false

namespace ApiSyntax.Binary64

/-! ## Reading -/

/-- The characters of a text with the letters of the basic alphabet in lower case. -/
def lowerAscii (cs : List Char) : List Char := cs.map Char.toLower

/-- The exponent behind a mantissa: nothing, or a mark with a sign and digits. -/
def readExponent : List Char → Option Int
  | [] => some 0
  | c :: rest =>
      if c = 'e' ∨ c = 'E' then
        let (negative, digits) := takeSign rest
        (unsigned? digits).map fun n => if negative then -(n : Int) else n
      else none

/-- The magnitude of a number written in digits.  There is a digit before or after the point. -/
def readMagnitude (cs : List Char) : Option Nat :=
  let whole := cs.takeWhile isAsciiDigit
  let rest := cs.dropWhile isAsciiDigit
  let (fraction, rest) :=
    match rest with
    | '.' :: behind => (behind.takeWhile isAsciiDigit, behind.dropWhile isAsciiDigit)
    | rest => ([], rest)
  if whole.isEmpty && fraction.isEmpty then none
  else
    (readExponent rest).map fun exponent =>
      ofDecimal (decimalValue (whole ++ fraction)) (exponent - fraction.length)

/-- The real number that a text writes, if it writes one. -/
def read (cs : List Char) : Option Binary64 :=
  let (negative, unsigned) := takeSign cs
  let word := lowerAscii unsigned
  if word = "inf".toList ∨ word = "infinity".toList then some (signed negative infinityBits)
  else if word = "nan".toList then some (signed negative (infinityBits + Nat.pow 2 51))
  else (readMagnitude unsigned).map (signed negative)

/-! ## Writing -/

/-- The least and the greatest exponent of ten that are written with a point alone. -/
def pointedExponents : Int × Int := (-5, 15)

/-- The digits with a point; at least one digit stands on each side. -/
def pointed (digits : List Char) (exponent : Int) : List Char :=
  if exponent < 0 then
    ['0', '.'] ++ List.replicate (-exponent - 1).toNat '0' ++ digits
  else
    let whole := exponent.toNat + 1
    let padded := digits ++ List.replicate (whole - digits.length) '0'
    let fraction := padded.drop whole
    padded.take whole ++ ['.'] ++ (if fraction.isEmpty then ['0'] else fraction)

/-- The digits with one in front of the point and an exponent with its sign. -/
def scientific (digits : List Char) (exponent : Int) : List Char :=
  digits.take 1 ++ (if digits.length ≤ 1 then [] else '.' :: digits.drop 1) ++
    ['e', if exponent < 0 then '-' else '+'] ++ decimalDigits exponent.natAbs

/-- The text of a finite magnitude. -/
def magnitudeText (magnitude : Nat) : List Char :=
  if magnitude = 0 then "0.0".toList
  else
    let d := shortest magnitude
    let digits := decimalDigits d.digits
    let exponent := d.exponent + digits.length - 1
    if pointedExponents.1 ≤ exponent ∧ exponent ≤ pointedExponents.2 then pointed digits exponent
    else scientific digits exponent

/-- The text of a real number; infinite values and marks for no number have none. -/
def text? (x : Binary64) : Option (List Char) :=
  if x.isFinite then
    some ((if x.isNegative then ['-'] else []) ++ magnitudeText x.magnitude)
  else none

end ApiSyntax.Binary64
