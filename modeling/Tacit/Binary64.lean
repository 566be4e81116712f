/-!
# Binary floating-point magnitudes

A `Float` without its sign is one of the codes `0, 1, …, infinity`, and a greater code stands for
a greater magnitude.  This file measures every magnitude as a whole number of units `2 ^ -1074`
and rounds a quotient of natural numbers to the nearest code, a half to the even one.
-/

namespace Tacit.Binary64

/-- The code of infinity, one above the greatest finite magnitude. -/
def infinity : Nat := 2047 * Nat.pow 2 52

/-- The magnitude of a code in units of `2 ^ -1074`.  Infinity is measured as the power of two at
which it starts. -/
def magnitude (code : Nat) : Nat :=
  if code < Nat.pow 2 52 then code
  else (Nat.pow 2 52 + code % Nat.pow 2 52) * Nat.pow 2 (code / Nat.pow 2 52 - 1)

/-- The point halfway between a code and the next one, in units of `2 ^ -1075`. -/
def halfway (code : Nat) : Nat := magnitude code + magnitude (code + 1)

/-- Whether `num / den` units of `2 ^ -1075` round to more than a code.  The halfway point itself
goes to the even neighbour. -/
def roundsAbove (num den code : Nat) : Bool :=
  match compare num (halfway code * den) with
  | .lt => false
  | .eq => code % 2 = 1
  | .gt => true

/-- Whether `num / den` units of `2 ^ -1075` round to exactly a code. -/
def roundsTo (num den code : Nat) : Bool :=
  !roundsAbove num den code && (code = 0 || roundsAbove num den (code - 1))

/-- Add the powers of two below `2 ^ bits`, greatest first, as long as the sum stays admitted. -/
def climb (admitted : Nat → Bool) : (bits code : Nat) → Nat
  | 0, code => code
  | bits + 1, code =>
      if admitted (code + Nat.pow 2 bits) then climb admitted bits (code + Nat.pow 2 bits)
      else climb admitted bits code

/-- The code nearest to `num / den` units of `2 ^ -1075`. -/
def nearest (num den : Nat) : Nat :=
  climb (fun code => code ≤ infinity && roundsAbove num den (code - 1)) 63 0

/-- The number with a sign and a code. -/
def toFloat (negative : Bool) (code : Nat) : Float :=
  .ofBits (.ofNat (if negative then Nat.pow 2 63 + code else code))

/-- Whether the sign bit is set. -/
def isNegative (value : Float) : Bool := Nat.pow 2 63 ≤ value.toBits.toNat

/-- The code of a number without its sign; a code above `infinity` is no number. -/
def code (value : Float) : Nat := value.toBits.toNat % Nat.pow 2 63

end Tacit.Binary64
