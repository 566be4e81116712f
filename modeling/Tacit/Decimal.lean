import Tacit.Binary64

/-!
# Decimals

A decimal is a whole number of some power of ten.  Reading takes a decimal to the nearest floating
point number.  Writing goes the other way: of all decimals that read back to a number, `shortest`
takes one on the coarsest power of ten, and of two such neighbours the nearer.
-/

namespace Tacit

/-- The number `digits * 10 ^ exponent`. -/
structure Decimal where
  /-- The digits as one whole number. -/
  digits : Nat
  /-- The power of ten of the last digit. -/
  exponent : Int
  deriving DecidableEq

/-- Which of two equally near decimals is taken. -/
inductive Tie where
  /-- The greater one. -/
  | up
  /-- The one whose last digit is even. -/
  | even
  deriving DecidableEq

/-- Whether the neighbour above `below` is taken, given how twice the distance from `below`
compares with the distance between the neighbours. -/
def Tie.takesUpper (tie : Tie) (below : Nat) : Ordering → Bool
  | .lt => false
  | .gt => true
  | .eq => match tie with
    | .up => true
    | .even => below % 2 = 1

namespace Decimal

/-- Numerator of a decimal as a quotient of units `2 ^ -1075`. -/
def num (decimal : Decimal) : Nat :=
  decimal.digits * Nat.pow 10 decimal.exponent.toNat * Nat.pow 2 1075

/-- Denominator of a decimal as a quotient of units `2 ^ -1075`. -/
def den (decimal : Decimal) : Nat := Nat.pow 10 (-decimal.exponent).toNat

/-- The floating-point code nearest to a decimal. -/
def code (decimal : Decimal) : Nat := Binary64.nearest decimal.num decimal.den

/-- The floating-point number nearest to a decimal. -/
def toFloat (decimal : Decimal) : Float := Binary64.toFloat false decimal.code

/-- Whether a decimal reads as the number with this code. -/
def readsAs (decimal : Decimal) (code : Nat) : Bool :=
  Binary64.roundsTo decimal.num decimal.den code

/-- Of two neighbours one that reads back, if any does.  Of two the upper is taken if it should
be. -/
def select? (lower upper : Decimal) (takesUpper : Bool) :
    (lowerReads upperReads : Bool) → Option Decimal
  | false, false => none
  | true, false => some lower
  | false, true => some upper
  | true, true => some (if takesUpper then upper else lower)

/-- A multiple of `10 ^ exponent` next to a number that reads back as the number, if there is
one.  Of two the nearer is taken. -/
def onGrid? (tie : Tie) (code : Nat) (exponent : Int) : Option Decimal :=
  let num := Binary64.magnitude code * Nat.pow 10 (-exponent).toNat
  let den := Nat.pow 2 1074 * Nat.pow 10 exponent.toNat
  let below := num / den
  let lower : Decimal := ⟨below, exponent⟩
  let upper : Decimal := ⟨below + 1, exponent⟩
  select? lower upper (tie.takesUpper below (compare (2 * (num % den)) den))
    (lower.readsAs code) (upper.readsAs code)

/-- The decimal with the fewest digits that reads back as the number with this code.  Below
`10 ^ -324` every gap between two numbers holds a grid point, so the search ends there. -/
def shortest (tie : Tie) (code : Nat) : Decimal :=
  let wholeDigits := (Nat.toDigits 10 (Binary64.magnitude code / Nat.pow 2 1074)).length
  ((List.range (wholeDigits + 325)).findSome? fun step : Nat =>
    onGrid? tie code ((wholeDigits : Int) - (step : Int))).getD ⟨0, 0⟩

end Decimal

end Tacit
