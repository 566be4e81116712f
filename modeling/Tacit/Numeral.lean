import Tacit.Decimal

/-!
# Numerals

A numeral is a written number: a sign, digits before and after the point, and an exponent.  The
numeral of a floating-point number spells its shortest decimal; a `Layout` says where the point goes
and when there is an exponent.
-/

namespace Tacit

/-- A written number. -/
structure Numeral where
  /-- Whether there is a minus sign. -/
  negative : Bool := false
  /-- The digits before the point. -/
  whole : List Char
  /-- The digits after the point; without any there is no point. -/
  fraction : List Char := []
  /-- The exponent, if one is written. -/
  exponent : Option Int := none
  deriving DecidableEq

namespace Numeral

/-- The characters of an exponent. -/
def exponentChars (exponent : Int) : List Char :=
  'e' :: (if exponent < 0 then '-' else '+') :: Nat.toDigits 10 exponent.natAbs

/-- The characters of a numeral. -/
def chars (numeral : Numeral) : List Char :=
  (if numeral.negative then ['-'] else []) ++ numeral.whole
    ++ (if numeral.fraction.isEmpty then [] else '.' :: numeral.fraction)
    ++ (numeral.exponent.map exponentChars).getD []

/-- The choices between numerals of one number. -/
structure Layout where
  /-- Which of two equally near shortest decimals is written. -/
  tie : Tie
  /-- The digits after the point of a whole number. -/
  wholeFraction : List Char
  /-- Whether a number with this power of ten at its first digit is written without exponent. -/
  isPlain : Int → Bool

/-- Digits without an exponent, the last of them at a power of ten. -/
def positional (layout : Layout) (digits : List Char) (exponent : Int) : Numeral :=
  if 0 ≤ exponent then
    { whole := digits ++ List.replicate exponent.toNat '0', fraction := layout.wholeFraction }
  else
    let places := (-exponent).toNat
    if places < digits.length then
      let split := digits.length - places
      { whole := digits.take split, fraction := digits.drop split }
    else
      { whole := ['0'], fraction := List.replicate (places - digits.length) '0' ++ digits }

/-- Digits with the point after the first, which stands at the power of ten `lead`. -/
def scientific (digits : List Char) (lead : Int) : Numeral :=
  { whole := digits.take 1, fraction := digits.drop 1, exponent := some lead }

/-- The numeral of a finite magnitude. -/
def ofCode (layout : Layout) (code : Nat) : Numeral :=
  if code = 0 then positional layout ['0'] 0
  else
    let decimal := Decimal.shortest layout.tie code
    let digits := Nat.toDigits 10 decimal.digits
    let lead := decimal.exponent + digits.length - 1
    if layout.isPlain lead then positional layout digits decimal.exponent
    else scientific digits lead

/-- The numeral of a finite number. -/
def ofFloat (layout : Layout) (value : Float) : Numeral :=
  { ofCode layout (Binary64.code value) with negative := Binary64.isNegative value }

/-- Never an exponent, and no point in whole numbers: `10000000000000000`, `0.0000001`, `3`. -/
def plain : Layout where
  tie := .up
  wholeFraction := []
  isPlain _ := true

/-- The text of a number in messages, diagnostics and printed tokens. -/
def text (value : Float) : String :=
  let code := Binary64.code value
  if Binary64.infinity < code then "NaN"
  else if code = Binary64.infinity then if Binary64.isNegative value then "-inf" else "inf"
  else String.ofList (ofFloat plain value).chars

/-- The number that a decimal digit stands for. -/
def digitValue (digit : Char) : Nat := digit.toNat - '0'.toNat

/-- The whole number that digits spell. -/
def natural (digits : List Char) : Nat :=
  digits.foldl (fun total digit => 10 * total + digitValue digit) 0

/-- The decimal that digits before and after a point spell. -/
def decimal (whole fraction : List Char) : Decimal :=
  ⟨natural (whole ++ fraction), -fraction.length⟩

end Numeral

end Tacit
