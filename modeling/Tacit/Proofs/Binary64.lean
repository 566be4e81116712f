import Mathlib
import Tacit.Binary64

/-!
# Rounding to the nearest code

Greater codes stand for greater magnitudes, so the points halfway between neighbours ascend as well
and cut the quotients into one stretch for each code.  `nearest` climbs to the code in whose stretch
a quotient lies.  A number is its sign and its code and nothing else.

The laws of packing a number into bits are those of the library.  No part of it has them without
all others, which is why it is imported whole.
-/

namespace Tacit.Binary64

section Magnitudes

variable {num den code small large : Nat}

theorem magnitude_of_lt (below : code < Nat.pow 2 52) : magnitude code = code := by
  rw [magnitude, if_pos below]

theorem magnitude_normal (exponent : Nat) {mantissa : Nat} (below : mantissa < Nat.pow 2 52) :
    magnitude (Nat.pow 2 52 * (exponent + 1) + mantissa) =
      (Nat.pow 2 52 + mantissa) * Nat.pow 2 exponent := by
  have positive : 0 < Nat.pow 2 52 := by decide
  rw [magnitude, if_neg, Nat.mul_add_mod, Nat.mod_eq_of_lt below, Nat.mul_add_div positive,
    Nat.div_eq_of_lt below, Nat.add_zero, Nat.add_sub_cancel]
  rw [Nat.mul_add]
  omega

/-- A greater code has a greater magnitude. -/
theorem magnitude_lt_succ (code : Nat) : magnitude code < magnitude (code + 1) := by
  have positive : 0 < Nat.pow 2 52 := by decide
  obtain below | above := Nat.lt_or_ge code (Nat.pow 2 52)
  · rw [magnitude_of_lt below]
    obtain further | reached := Nat.lt_or_eq_of_le (Nat.succ_le_of_lt below)
    · rw [magnitude_of_lt further]
      omega
    · have first := magnitude_normal 0 positive
      simp only [Nat.zero_add, Nat.mul_one, Nat.add_zero] at first
      rw [Nat.succ_eq_add_one] at reached
      rw [reached, first]
      simp only [Nat.pow_eq, Nat.pow_zero]
      omega
  · obtain ⟨exponent, mantissa, inside, rfl⟩ : ∃ exponent mantissa, mantissa < Nat.pow 2 52 ∧
        code = Nat.pow 2 52 * (exponent + 1) + mantissa := by
      refine ⟨code / Nat.pow 2 52 - 1, code % Nat.pow 2 52, Nat.mod_lt _ positive, ?_⟩
      rw [Nat.sub_add_cancel (Nat.div_pos above positive), Nat.div_add_mod]
    have unit : 0 < Nat.pow 2 exponent := Nat.two_pow_pos exponent
    rw [magnitude_normal exponent inside]
    obtain further | reached := Nat.lt_or_eq_of_le (Nat.succ_le_of_lt inside)
    · rw [Nat.add_assoc, magnitude_normal exponent further]
      exact Nat.mul_lt_mul_of_pos_right (by omega) unit
    · have next : Nat.pow 2 52 * (exponent + 1) + mantissa + 1 =
          Nat.pow 2 52 * (exponent + 1 + 1) + 0 := by
        rw [Nat.mul_add _ (exponent + 1) 1, Nat.mul_one, ← reached]
        omega
      rw [next, magnitude_normal (exponent + 1) positive]
      have doubled : Nat.pow 2 (exponent + 1) = 2 * Nat.pow 2 exponent := Nat.pow_succ'
      rw [doubled, ← Nat.mul_assoc]
      exact Nat.mul_lt_mul_of_pos_right (by omega) unit

theorem halfway_lt_succ (code : Nat) : halfway code < halfway (code + 1) :=
  Nat.add_lt_add (magnitude_lt_succ code) (magnitude_lt_succ (code + 1))

theorem halfway_lt (less : small < large) : halfway small < halfway large := by
  induction less with
  | refl => exact halfway_lt_succ small
  | step _ ih => exact Nat.lt_trans ih (halfway_lt_succ _)

end Magnitudes

section Rounding

variable {num den code small large : Nat}

theorem roundsAbove_of_lt (above : halfway code * den < num) : roundsAbove num den code = true := by
  rw [roundsAbove, Nat.compare_eq_gt.mpr above]

theorem not_roundsAbove_of_lt (below : num < halfway code * den) :
    roundsAbove num den code = false := by
  rw [roundsAbove, Nat.compare_eq_lt.mpr below]

theorem le_of_roundsAbove (rounds : roundsAbove num den code = true) :
    halfway code * den ≤ num := by
  refine Nat.le_of_not_lt fun below => ?_
  rw [not_roundsAbove_of_lt below] at rounds
  contradiction

/-- What rounds to more than a code rounds to more than every smaller code. -/
theorem roundsAbove_of_le (positive : 0 < den) (less : small ≤ large)
    (rounds : roundsAbove num den large = true) : roundsAbove num den small = true := by
  obtain rfl | smaller := Nat.eq_or_lt_of_le less
  · exact rounds
  · refine roundsAbove_of_lt ?_
    calc halfway small * den < halfway large * den :=
          Nat.mul_lt_mul_of_pos_right (halfway_lt smaller) positive
      _ ≤ num := le_of_roundsAbove rounds

/-- What lies strictly between the halfway points around a code rounds to the code. -/
theorem roundsTo_of_lt (above : halfway (code - 1) * den < num) (below : num < halfway code * den) :
    roundsTo num den code = true := by
  rw [roundsTo, not_roundsAbove_of_lt below, roundsAbove_of_lt above]
  simp

/-- What is less than half a unit away from a magnitude rounds to its code. -/
theorem roundsTo_of_near (positive : 0 < code) (above : 2 * (magnitude code * den) < num + den)
    (below : num < 2 * (magnitude code * den) + den) : roundsTo num den code = true := by
  have before : halfway (code - 1) + 1 ≤ 2 * magnitude code := by
    have less := magnitude_lt_succ (code - 1)
    rw [Nat.sub_add_cancel positive] at less
    rw [halfway, Nat.sub_add_cancel positive]
    omega
  have after : 2 * magnitude code + 1 ≤ halfway code := by
    have less := magnitude_lt_succ code
    rw [halfway]
    omega
  have scaledBefore := Nat.mul_le_mul_right den before
  have scaledAfter := Nat.mul_le_mul_right den after
  rw [Nat.add_mul, Nat.one_mul, Nat.mul_assoc] at scaledBefore scaledAfter
  exact roundsTo_of_lt (by omega) (by omega)

end Rounding

section Climbing

variable {admitted : Nat → Bool} {bits code target bound : Nat}

/-- Where all codes up to a target are admitted and none above it, climbing ends at the target. -/
theorem climb_eq (upTo : ∀ code, 0 < code → (admitted code = true ↔ code ≤ target))
    (low : code ≤ target) (high : target < code + Nat.pow 2 bits) :
    climb admitted bits code = target := by
  induction bits generalizing code with
  | zero =>
      have single : Nat.pow 2 0 = 1 := rfl
      rw [climb]
      omega
  | succ bits ih =>
      have doubled : Nat.pow 2 (bits + 1) = 2 * Nat.pow 2 bits := Nat.pow_succ'
      have positive : 0 < Nat.pow 2 bits := Nat.two_pow_pos bits
      have here := upTo (code + Nat.pow 2 bits) (by omega)
      rw [climb]
      split
      next taken => exact ih (here.mp taken) (by omega)
      next refused =>
        have above : ¬ code + Nat.pow 2 bits ≤ target := fun within => refused (here.mpr within)
        exact ih low (by omega)

theorem climb_le (bounded : ∀ code, admitted code = true → code ≤ bound) (low : code ≤ bound) :
    climb admitted bits code ≤ bound := by
  induction bits generalizing code with
  | zero => exact low
  | succ bits ih =>
      rw [climb]
      split
      next taken => exact ih (bounded _ taken)
      next => exact ih low

end Climbing

section Nearest

variable {num den code : Nat}

theorem nearest_le_infinity (num den : Nat) : nearest num den ≤ infinity := by
  refine climb_le (fun code taken => ?_) (Nat.zero_le _)
  simp only [Bool.and_eq_true, decide_eq_true_eq] at taken
  exact taken.1

/-- A quotient that rounds to a code is nearest to this code. -/
theorem nearest_eq_of_roundsTo (positive : 0 < den) (bounded : code ≤ infinity)
    (rounds : roundsTo num den code = true) : nearest num den = code := by
  have inRange : infinity < Nat.pow 2 63 := by decide
  simp only [roundsTo, Bool.and_eq_true, Bool.not_eq_true', Bool.or_eq_true, decide_eq_true_eq]
    at rounds
  obtain ⟨notAbove, atLeast⟩ := rounds
  refine climb_eq (fun other nonzero => ?_) (Nat.zero_le _) (by omega)
  simp only [Bool.and_eq_true, decide_eq_true_eq]
  constructor
  · rintro ⟨_, reaches⟩
    refine Nat.le_of_not_lt fun beyond => ?_
    have above := roundsAbove_of_le positive (show code ≤ other - 1 by omega) reaches
    rw [notAbove] at above
    contradiction
  · intro within
    obtain zero | above := atLeast
    · omega
    · exact ⟨by omega, roundsAbove_of_le positive (by omega) above⟩

end Nearest

section Numbers

open Float.Model.UnpackedFloat

variable {value : Float} {code : Nat}

theorem toNat_unpackExponent (bits : BitVec 64) :
    (@unpackExponent .binary64 bits).toNat = bits.toNat / 2 ^ 52 % 2 ^ 11 := by
  rw [unpackExponent_def, BitVec.extractLsb'_toNat, Nat.shiftRight_eq_div_pow]

theorem toNat_unpackMantissa (bits : BitVec 64) :
    (@unpackMantissa .binary64 bits).toNat = bits.toNat % 2 ^ 52 := by
  rw [unpackMantissa_def, BitVec.extractLsb'_toNat, Nat.shiftRight_zero]

theorem unpackExponent_eq_iff (bits : BitVec 64) :
    @unpackExponent .binary64 bits = -1#11 ↔ bits.toNat / 2 ^ 52 % 2 ^ 11 = 2047 := by
  rw [← BitVec.toNat_inj, toNat_unpackExponent]
  rfl

/-- A finite number has a code below infinity. -/
theorem code_lt_infinity (finite : value.isFinite = true) : Binary64.code value < infinity := by
  have exponent : value.toBits.toNat / 2 ^ 52 % 2 ^ 11 ≠ 2047 := by
    intro reached
    have allOnes := (unpackExponent_eq_iff value.toBits.toBitVec).mpr reached
    change (unpack .binary64 value.toBits.toBitVec).isFinite = true at finite
    rw [unpack] at finite
    simp only [allOnes, if_true] at finite
    split at finite <;> contradiction
  have bounded := value.toBits.toNat_lt
  simp only [Binary64.code, infinity, Nat.pow_eq]
  omega

/-- A number without sign is the number of its code. -/
theorem toFloat_code (unsigned : isNegative value = false) :
    toFloat false (Binary64.code value) = value := by
  have small : value.toBits.toNat < Nat.pow 2 63 := by simpa [isNegative] using unsigned
  rw [toFloat, Binary64.code, Nat.mod_eq_of_lt small]
  simp

theorem toBits_ofBits {bits : UInt64} (isNumber : @isNaNBits .binary64 bits.toBitVec = false) :
    (Float.ofBits bits).toBits = bits := by
  change UInt64.ofBitVec ((unpack .binary64 bits.toBitVec).pack .binary64) = bits
  rw [pack_unpack, isNumber]
  rfl

theorem toNat_toBits_toFloat (bounded : code ≤ infinity) :
    (toFloat false code).toBits.toNat = code := by
  simp only [infinity, Nat.pow_eq] at bounded
  have bits : (UInt64.ofNat code).toNat = code := by
    rw [UInt64.toNat_ofNat', Nat.mod_eq_of_lt (by omega)]
  have isNumber : @isNaNBits .binary64 (UInt64.ofNat code).toBitVec = false := by
    refine decide_eq_false fun ⟨exponent, mantissa⟩ => mantissa (BitVec.eq_of_toNat_eq ?_)
    rw [unpackExponent_eq_iff, UInt64.toNat_toBitVec, bits] at exponent
    rw [toNat_unpackMantissa, UInt64.toNat_toBitVec, bits]
    change code % 2 ^ 52 = 0
    omega
  rw [toFloat, if_neg Bool.false_ne_true, toBits_ofBits isNumber, bits]

/-- The number of a code has no sign. -/
theorem isNegative_toFloat (bounded : code ≤ infinity) :
    isNegative (toFloat false code) = false := by
  rw [isNegative, toNat_toBits_toFloat bounded]
  simp only [infinity, Nat.pow_eq] at bounded
  simp only [Nat.pow_eq, decide_eq_false_iff_not]
  omega

theorem code_toFloat (bounded : code ≤ infinity) : Binary64.code (toFloat false code) = code := by
  rw [Binary64.code, toNat_toBits_toFloat bounded]
  simp only [infinity, Nat.pow_eq] at bounded
  exact Nat.mod_eq_of_lt (by simp only [Nat.pow_eq]; omega)

/-- A number is its sign and its code. -/
theorem eq_of_code_eq {left right : Float} (sameSign : isNegative left = isNegative right)
    (sameCode : Binary64.code left = Binary64.code right) : left = right := by
  have leftBits := left.toBits.toNat_lt
  have rightBits := right.toBits.toNat_lt
  simp only [isNegative, decide_eq_decide, Nat.pow_eq] at sameSign
  simp only [Binary64.code, Nat.pow_eq] at sameCode
  refine Float.toBits_inj.mp (UInt64.toNat_inj.mp ?_)
  omega

theorem toBits_eq_packedNaN (isNone : infinity < Binary64.code value) :
    value.toBits.toBitVec = packedNaN .binary64 := by
  have bounded := value.toBits.toNat_lt
  simp only [Binary64.code, infinity, Nat.pow_eq] at isNone
  refine value.toModel.valid.eq_packedNaN ?_ fun zero => ?_
  · refine (unpackExponent_eq_iff value.toBits.toBitVec).mpr ?_
    rw [UInt64.toNat_toBitVec]
    omega
  · have mantissa := (toNat_unpackMantissa value.toBits.toBitVec).symm.trans
      (congrArg BitVec.toNat zero)
    change value.toBits.toNat % 2 ^ 52 = 0 at mantissa
    omega

/-- All that is no number is the same. -/
theorem eq_of_infinity_lt_code {left right : Float} (leftNone : infinity < Binary64.code left)
    (rightNone : infinity < Binary64.code right) : left = right := by
  refine Float.toBits_inj.mp (UInt64.toBitVec_inj.mp ?_)
  rw [toBits_eq_packedNaN leftNone, toBits_eq_packedNaN rightNone]

end Numbers

end Tacit.Binary64
