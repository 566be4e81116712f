import Tacit.Proofs.Binary64
import Tacit.Proofs.Munch

/-!
# Numerals that read back

The shortest decimal of a number reads as the number: the grid of `10 ^ -324` is finer than the unit
of all magnitudes, so the search for a decimal ends there at the latest.  Where the point stands
makes no difference to what digits are worth, so the text of a finite number without sign is digits
with at most one point, and the lexer reads it as the number.  With the sign before them, texts tell
all numbers apart.
-/

namespace Tacit

namespace Decimal

variable {decimal : Decimal} {tie : Tie} {code : Nat} {exponent : Int}

theorem den_pos (decimal : Decimal) : 0 < decimal.den := Nat.pow_pos (by decide)

theorem code_eq_of_readsAs (bounded : code ≤ Binary64.infinity)
    (reads : decimal.readsAs code = true) : decimal.code = code :=
  Binary64.nearest_eq_of_roundsTo decimal.den_pos bounded reads

/-- Zeros after a whole number can be told by the exponent. -/
theorem code_scale (digits : Nat) (upward : 0 ≤ exponent) :
    (⟨digits * Nat.pow 10 exponent.toNat, 0⟩ : Decimal).code =
      (⟨digits, exponent⟩ : Decimal).code := by
  have num : (⟨digits * Nat.pow 10 exponent.toNat, 0⟩ : Decimal).num =
      (⟨digits, exponent⟩ : Decimal).num := by
    have single : Nat.pow 10 (0 : Int).toNat = 1 := rfl
    rw [Decimal.num, single, Nat.mul_one, Decimal.num]
  have den : (⟨digits * Nat.pow 10 exponent.toNat, 0⟩ : Decimal).den =
      (⟨digits, exponent⟩ : Decimal).den := by
    rw [Decimal.den, Decimal.den, Int.toNat_of_nonpos (show -exponent ≤ 0 by omega)]
    rfl
  rw [code, code, num, den]

section Selecting

variable (reads : Decimal → Bool) {lower upper : Decimal}

theorem reads_of_select? {takesUpper : Bool}
    (found : select? lower upper takesUpper (reads lower) (reads upper) = some decimal) :
    reads decimal = true := by
  cases lowerReads : reads lower <;> cases upperReads : reads upper <;>
    rw [lowerReads, upperReads, select?] at found
  · contradiction
  · cases found
    exact upperReads
  · cases found
    exact lowerReads
  · cases found
    split
    · exact upperReads
    · exact lowerReads

theorem select?_ne_none (takesUpper : Bool) (either : reads lower = true ∨ reads upper = true) :
    select? lower upper takesUpper (reads lower) (reads upper) ≠ none := by
  obtain lowerReads | upperReads := either
  · cases upperReads : reads upper <;> simp [lowerReads, select?]
  · cases lowerReads : reads lower <;> simp [upperReads, select?]

end Selecting

theorem readsAs_of_onGrid? (found : onGrid? tie code exponent = some decimal) :
    decimal.readsAs code = true := by
  rw [onGrid?] at found
  exact reads_of_select? (·.readsAs code) found

/-- On a grid that is finer than the unit, one of the two neighbours of a whole number of units is
less than half a unit away from it. -/
theorem exists_neighbour {unit grid : Nat} (positive : 0 < unit) (finer : unit < grid)
    (total : Nat) :
    ∃ digits, (digits = total / unit ∨ digits = total / unit + 1) ∧
      2 * total < 2 * (digits * unit) + grid ∧ 2 * (digits * unit) < 2 * total + grid := by
  have split := Nat.div_add_mod' total unit
  have remains := Nat.mod_lt total positive
  by_cases lowerNear : 2 * (total % unit) < grid
  · exact ⟨_, .inl rfl, by omega, by omega⟩
  · have upper : (total / unit + 1) * unit = total / unit * unit + unit := by
      rw [Nat.add_mul, Nat.one_mul]
    exact ⟨_, .inr rfl, by omega, by omega⟩

/-- What is less than half a unit away from a magnitude reads as its code. -/
theorem readsAs_of_near {digits places unit : Nat} (units : Nat.pow 2 1075 = unit * 2)
    (positive : 0 < code)
    (above : 2 * (Binary64.magnitude code * Nat.pow 10 places) <
      2 * (digits * unit) + Nat.pow 10 places)
    (below : 2 * (digits * unit) <
      2 * (Binary64.magnitude code * Nat.pow 10 places) + Nat.pow 10 places) :
    (⟨digits, -places⟩ : Decimal).readsAs code = true := by
  have num : (⟨digits, -places⟩ : Decimal).num = 2 * (digits * unit) := by
    have single : Nat.pow 10 0 = 1 := rfl
    rw [Decimal.num, units, Int.toNat_neg_natCast, single, Nat.mul_one, ← Nat.mul_assoc,
      Nat.mul_comm]
  have den : (⟨digits, -places⟩ : Decimal).den = Nat.pow 10 places := by
    rw [Decimal.den, neg_neg, Int.toNat_natCast]
  rw [readsAs, num, den]
  exact Binary64.roundsTo_of_near positive above below

/-- A grid that is finer than the unit has a decimal that reads as the number. -/
theorem onGrid?_ne_none (tie : Tie) {places : Nat} (finer : Nat.pow 2 1074 < Nat.pow 10 places)
    (positive : 0 < code) : onGrid? tie code (-places) ≠ none := by
  -- Powers this large must not be computed: all that is used of the unit is that it is half of
  -- the one in which decimals are measured.
  obtain ⟨unit, single, units, one⟩ :
      ∃ unit, Nat.pow 2 1074 = unit ∧ Nat.pow 2 1075 = unit * 2 ∧ 0 < unit :=
    ⟨_, rfl, by decide +kernel, by decide +kernel⟩
  have whole : Nat.pow 10 0 = 1 := rfl
  rw [onGrid?, single, neg_neg, Int.toNat_natCast, Int.toNat_neg_natCast, whole, Nat.mul_one]
  rw [single] at finer
  obtain ⟨digits, neighbour, above, below⟩ :=
    exists_neighbour one finer (Binary64.magnitude code * Nat.pow 10 places)
  have reads := readsAs_of_near units positive above below
  refine select?_ne_none (·.readsAs code) _ ?_
  obtain rfl | rfl := neighbour
  · exact .inl reads
  · exact .inr reads

/-- The shortest decimal of a number reads as the number. -/
theorem readsAs_shortest (tie : Tie) (positive : 0 < code) :
    (shortest tie code).readsAs code = true := by
  simp only [shortest]
  generalize (Nat.toDigits 10 (Binary64.magnitude code / Nat.pow 2 1074)).length = wholeDigits
  cases found : (List.range (wholeDigits + 325)).findSome? fun step : Nat =>
      onGrid? tie code ((wholeDigits : Int) - (step : Int)) with
  | some decimal =>
      obtain ⟨step, _, onGrid⟩ := List.exists_of_findSome?_eq_some found
      exact readsAs_of_onGrid? onGrid
  | none =>
      have last := List.findSome?_eq_none_iff.mp found (wholeDigits + 324) (by simp)
      have finest : (wholeDigits : Int) - ((wholeDigits + 324 : Nat) : Int) = -(324 : Nat) := by
        omega
      rw [finest] at last
      exact absurd last (onGrid?_ne_none tie (by decide +kernel) positive)

end Decimal

namespace Numeral

section Digits

theorem natural_eq_ofDigitChars (digits : List Char) :
    natural digits = Nat.ofDigitChars 10 digits 0 := by
  rw [Nat.ofDigitChars_eq_foldl]
  rfl

theorem natural_toDigits (number : Nat) : natural (Nat.toDigits 10 number) = number := by
  rw [natural_eq_ofDigitChars, Nat.ofDigitChars_ten_toDigits]

theorem natural_append_zeros (digits : List Char) (places : Nat) :
    natural (digits ++ List.replicate places '0') = natural digits * Nat.pow 10 places := by
  rw [natural_eq_ofDigitChars, Nat.ofDigitChars_append, Nat.ofDigitChars_replicate_zero,
    natural_eq_ofDigitChars, Nat.mul_comm]
  rfl

theorem natural_zeros_append (digits : List Char) (places : Nat) :
    natural (List.replicate places '0' ++ digits) = natural digits := by
  rw [natural_eq_ofDigitChars, Nat.ofDigitChars_append, Nat.ofDigitChars_replicate_zero,
    Nat.mul_zero, natural_eq_ofDigitChars]

theorem isDigit_of_mem_zeros {places : Nat} {char : Char}
    (member : char ∈ List.replicate places '0') : char.isDigit = true := by
  rw [List.eq_of_mem_replicate member]
  rfl

end Digits

/-- A numeral of nothing but digits, with at least one before the point. -/
structure IsPlain (numeral : Numeral) : Prop where
  unsigned : numeral.negative = false
  unscaled : numeral.exponent = none
  whole_ne : numeral.whole ≠ []
  isWhole : ∀ char ∈ numeral.whole, char.isDigit = true
  isFraction : ∀ char ∈ numeral.fraction, char.isDigit = true

namespace IsPlain

variable {numeral : Numeral}

theorem chars_eq (isPlain : numeral.IsPlain) :
    numeral.chars = numeral.whole ++
      (if numeral.fraction.isEmpty then [] else '.' :: numeral.fraction) := by
  simp [chars, isPlain.unsigned, isPlain.unscaled]

theorem continues (isPlain : numeral.IsPlain) :
    ∀ char ∈ numeral.chars, Lexer.continuesNumber char = true := by
  intro char member
  rw [isPlain.chars_eq] at member
  obtain inWhole | inFraction := List.mem_append.mp member
  · simp [Lexer.continuesNumber, isPlain.isWhole char inWhole]
  · split at inFraction
    next => simp at inFraction
    next =>
      obtain rfl | inDigits := List.mem_cons.mp inFraction
      · rfl
      · simp [Lexer.continuesNumber, isPlain.isFraction char inDigits]

theorem exists_first (isPlain : numeral.IsPlain) :
    ∃ first rest, numeral.chars = first :: rest ∧ first.isDigit = true := by
  obtain ⟨first, rest, whole⟩ := List.exists_cons_of_ne_nil isPlain.whole_ne
  have isDigit := isPlain.isWhole first (by simp [whole])
  rw [isPlain.chars_eq, whole]
  exact ⟨first, _, rfl, isDigit⟩

theorem numberValue_chars (isPlain : numeral.IsPlain) :
    Lexer.numberValue numeral.chars = (decimal numeral.whole numeral.fraction).toFloat := by
  rw [isPlain.chars_eq]
  cases digits : numeral.fraction with
  | nil => simpa using Lexer.numberValue_of_digits isPlain.isWhole
  | cons first rest =>
      have isFraction := isPlain.isFraction
      rw [digits] at isFraction
      simpa using Lexer.numberValue_of_point [] isPlain.isWhole isFraction (by simp)

end IsPlain

section Positional

variable {layout : Layout} {digits : List Char} {exponent : Int}

theorem isPlain_positional (isWhole : layout.wholeFraction = []) (nonempty : digits ≠ [])
    (isDigits : ∀ char ∈ digits, char.isDigit = true) :
    (positional layout digits exponent).IsPlain := by
  rw [positional]
  split
  next =>
    refine ⟨rfl, rfl, by simp [nonempty], fun char member => ?_, by simp [isWhole]⟩
    obtain inDigits | inZeros := List.mem_append.mp member
    · exact isDigits char inDigits
    · exact isDigit_of_mem_zeros inZeros
  next =>
    dsimp only
    split
    next inside =>
      refine ⟨rfl, rfl, ?_, fun char member => ?_, fun char member => ?_⟩
      · intro blank
        obtain noneTaken | noneThere := List.take_eq_nil_iff.mp blank
        · omega
        · exact nonempty noneThere
      · exact isDigits char (List.mem_of_mem_take member)
      · exact isDigits char (List.mem_of_mem_drop member)
    next =>
      refine ⟨rfl, rfl, by simp, by simp, fun char member => ?_⟩
      obtain inZeros | inDigits := List.mem_append.mp member
      · exact isDigit_of_mem_zeros inZeros
      · exact isDigits char inDigits

/-- Where the point stands makes no difference to what the digits are worth. -/
theorem code_positional (isWhole : layout.wholeFraction = []) (digits : List Char)
    (exponent : Int) :
    (decimal (positional layout digits exponent).whole
      (positional layout digits exponent).fraction).code =
        (⟨natural digits, exponent⟩ : Decimal).code := by
  rw [positional]
  split
  next upward =>
    rw [isWhole, decimal, List.append_nil, natural_append_zeros]
    exact Decimal.code_scale (natural digits) upward
  next =>
    dsimp only
    split
    next inside =>
      have places : -((digits.drop (digits.length - (-exponent).toNat)).length : Int) =
          exponent := by
        rw [List.length_drop]
        omega
      rw [decimal, List.take_append_drop, places]
    next =>
      have places : -((List.replicate ((-exponent).toNat - digits.length) '0' ++ digits).length
          : Int) = exponent := by
        rw [List.length_append, List.length_replicate]
        omega
      rw [decimal, places, ← List.append_assoc, ← List.replicate_one,
        List.replicate_append_replicate, natural_zeros_append]

end Positional

/-- A finite number is written as the digits of a decimal that reads as it. -/
theorem exists_ofCode_eq (code : Nat) :
    ∃ decimal : Decimal, decimal.readsAs code = true ∧
      ofCode plain code = positional plain (Nat.toDigits 10 decimal.digits) decimal.exponent := by
  by_cases zero : code = 0
  · subst zero
    exact ⟨⟨0, 0⟩, by decide +kernel, rfl⟩
  · refine ⟨Decimal.shortest .up code, Decimal.readsAs_shortest .up (by omega), ?_⟩
    rw [ofCode, if_neg zero]
    rfl

/-- A finite number without sign is written as a plain numeral. -/
theorem isPlain_ofCode (code : Nat) : (ofCode plain code).IsPlain := by
  obtain ⟨decimal, _, spelled⟩ := exists_ofCode_eq code
  rw [spelled]
  exact isPlain_positional rfl Nat.toDigits_ne_nil
    fun char => Nat.isDigit_of_mem_toDigits (by decide) (by decide)

/-- The lexer reads the numeral of a finite number without sign as the number. -/
theorem numberValue_ofCode {code : Nat} (bounded : code ≤ Binary64.infinity) :
    Lexer.numberValue (ofCode plain code).chars = Binary64.toFloat false code := by
  obtain ⟨decimal, reads, spelled⟩ := exists_ofCode_eq code
  rw [(isPlain_ofCode code).numberValue_chars, Decimal.toFloat, spelled, code_positional rfl,
    natural_toDigits, Decimal.code_eq_of_readsAs bounded reads]

/-- The lexer reads no number with a sign. -/
theorem isNegative_numberValue (lexeme : List Char) :
    Binary64.isNegative (Lexer.numberValue lexeme) = false :=
  Binary64.isNegative_toFloat (Binary64.nearest_le_infinity _ _)

/-- The text of a finite number without sign is a plain numeral that is read as the number. -/
theorem exists_isPlain_text {value : Float} (finite : value.isFinite = true)
    (unsigned : Binary64.isNegative value = false) :
    ∃ numeral : Numeral, numeral.IsPlain ∧ (text value).toList = numeral.chars ∧
      Lexer.numberValue numeral.chars = value := by
  have below := Binary64.code_lt_infinity finite
  have isPlain := isPlain_ofCode (Binary64.code value)
  refine ⟨_, isPlain, ?_, ?_⟩
  · rw [text, if_neg (by omega), if_neg (by omega), String.toList_ofList, ofFloat, unsigned,
      ← isPlain.unsigned]
  · rw [numberValue_ofCode (Nat.le_of_lt below), Binary64.toFloat_code unsigned]

section Injective

variable {value : Float} {code other : Nat}

/-- The text of a number after its sign. -/
def magnitudeChars (code : Nat) : List Char :=
  if code = Binary64.infinity then "inf".toList else (ofCode plain code).chars

theorem toList_text (isNumber : Binary64.code value ≤ Binary64.infinity) :
    (text value).toList = (if Binary64.isNegative value then ['-'] else []) ++
      magnitudeChars (Binary64.code value) := by
  rw [text, if_neg (by omega), magnitudeChars]
  split
  · cases Binary64.isNegative value <;> rfl
  · have isPlain := isPlain_ofCode (Binary64.code value)
    rw [String.toList_ofList, ofFloat, isPlain.chars_eq]
    simp [chars, isPlain.unscaled]

theorem exists_first_magnitudeChars (code : Nat) :
    ∃ first rest, magnitudeChars code = first :: rest ∧ (first = 'i' ∨ first.isDigit = true) := by
  rw [magnitudeChars]
  split
  · exact ⟨'i', ['n', 'f'], rfl, .inl rfl⟩
  · obtain ⟨first, rest, spelled, isDigit⟩ := (isPlain_ofCode code).exists_first
    exact ⟨first, rest, spelled, .inr isDigit⟩

theorem ofCode_chars_ne_inf (code : Nat) : (ofCode plain code).chars ≠ "inf".toList := by
  obtain ⟨first, rest, spelled, isDigit⟩ := (isPlain_ofCode code).exists_first
  intro same
  rw [spelled] at same
  obtain rfl : first = 'i' := (List.cons.inj same).1
  contradiction

/-- The text after the sign tells the code: the lexer reads it from the digits. -/
theorem magnitudeChars_inj (codeBounded : code ≤ Binary64.infinity)
    (otherBounded : other ≤ Binary64.infinity) (same : magnitudeChars code = magnitudeChars other) :
    code = other := by
  rw [magnitudeChars, magnitudeChars] at same
  split at same
  next top =>
    split at same
    next otherTop => rw [top, otherTop]
    next => exact absurd same.symm (ofCode_chars_ne_inf other)
  next =>
    split at same
    next => exact absurd same (ofCode_chars_ne_inf code)
    next =>
      have sameValue := congrArg Lexer.numberValue same
      rw [numberValue_ofCode codeBounded, numberValue_ofCode otherBounded] at sameValue
      rw [← Binary64.code_toFloat codeBounded, sameValue, Binary64.code_toFloat otherBounded]

theorem text_ne_nan (isNumber : Binary64.code value ≤ Binary64.infinity) : text value ≠ "NaN" := by
  intro same
  have spelled := toList_text isNumber
  obtain ⟨first, rest, magnitude, starts⟩ := exists_first_magnitudeChars (Binary64.code value)
  rw [same, magnitude] at spelled
  split at spelled
  · cases spelled
  · obtain rfl : 'N' = first := (List.cons.inj spelled).1
    revert starts
    decide

theorem magnitudeChars_ne_sign (code : Nat) (rest : List Char) :
    magnitudeChars code ≠ '-' :: rest := by
  obtain ⟨first, later, magnitude, starts⟩ := exists_first_magnitudeChars code
  rw [magnitude]
  rintro ⟨⟩
  revert starts
  decide

theorem eq_of_text_eq {left right : Float}
    (leftNumber : Binary64.code left ≤ Binary64.infinity)
    (rightNumber : Binary64.code right ≤ Binary64.infinity) (same : text left = text right) :
    left = right := by
  have sameChars := congrArg String.toList same
  rw [toList_text leftNumber, toList_text rightNumber] at sameChars
  cases leftSign : Binary64.isNegative left <;> cases rightSign : Binary64.isNegative right <;>
    rw [leftSign, rightSign] at sameChars
  · refine Binary64.eq_of_code_eq (leftSign.trans rightSign.symm) ?_
    exact magnitudeChars_inj leftNumber rightNumber sameChars
  · exact absurd sameChars (magnitudeChars_ne_sign _ _)
  · exact absurd sameChars.symm (magnitudeChars_ne_sign _ _)
  · refine Binary64.eq_of_code_eq (leftSign.trans rightSign.symm) ?_
    exact magnitudeChars_inj leftNumber rightNumber (List.cons.inj sameChars).2

theorem text_eq_nan_iff : text value = "NaN" ↔ Binary64.infinity < Binary64.code value := by
  refine ⟨fun isNone => ?_, fun above => by rw [text, if_pos above]⟩
  by_contra isNumber
  exact text_ne_nan (Nat.le_of_not_lt isNumber) isNone

/-- Numbers with the same text are the same, and so zeros of both signs are told apart.  All that is
no number has one text, and is one value. -/
theorem text_injective : Function.Injective text := by
  intro left right same
  by_cases isNone : text left = "NaN"
  · have otherNone := same.symm.trans isNone
    exact Binary64.eq_of_infinity_lt_code (text_eq_nan_iff.mp isNone) (text_eq_nan_iff.mp otherNone)
  · have otherNumber : text right ≠ "NaN" := same ▸ isNone
    rw [text_eq_nan_iff, Nat.not_lt] at isNone
    rw [ne_eq, text_eq_nan_iff, Nat.not_lt] at otherNumber
    exact eq_of_text_eq isNone otherNumber same

end Injective

end Numeral

end Tacit
