import Tacit.Json.Reader
import Tacit.Json.Writer
import Tacit.Proofs.Numeral

/-!
# Written JSON is read back

The reader takes the text of a value back to the value: every character of a string is escaped in
one way that is read as the character, numerals have no needless zeros in front, and after each part
comes a character that does not go on with it.
-/

namespace Tacit

/-- Digits with at least one before the point, and no zero in front of others. -/
structure Numeral.Regular (numeral : Numeral) : Prop where
  whole_ne : numeral.whole ≠ []
  isWhole : ∀ char ∈ numeral.whole, char.isDigit = true
  isFraction : ∀ char ∈ numeral.fraction, char.isDigit = true
  leading : numeral.whole = ['0'] ∨ numeral.whole.head? ≠ some '0'

namespace Numeral

section Regular

theorem isDigit_of_mem_toDigits {number : Nat} {char : Char}
    (member : char ∈ Nat.toDigits 10 number) : char.isDigit = true :=
  Nat.isDigit_of_mem_toDigits (by decide) (by decide) member

theorem head?_toDigits_ne {number : Nat} (positive : number ≠ 0) :
    (Nat.toDigits 10 number).head? ≠ some '0' := by
  induction number using Nat.strongRecOn with
  | ind number ih =>
      obtain small | large := Nat.lt_or_ge number 10
      · rw [Nat.toDigits_of_lt_base small]
        interval_cases number <;> simp_all [Nat.digitChar]
      · rw [Nat.toDigits_of_base_le (by decide) large,
          List.head?_append_of_ne_nil _ Nat.toDigits_ne_nil]
        exact ih (number / 10) (by omega) (by omega)

variable {digits : List Char} (nonempty : digits ≠ [])
  (isDigits : ∀ char ∈ digits, char.isDigit = true) (leading : digits.head? ≠ some '0')

include nonempty isDigits leading

theorem regular_positional {layout : Layout}
    (isFraction : ∀ char ∈ layout.wholeFraction, char.isDigit = true) (exponent : Int) :
    (positional layout digits exponent).Regular := by
  rw [positional]
  split
  next =>
    refine ⟨by simp [nonempty], fun char member => ?_, isFraction, .inr ?_⟩
    · obtain inDigits | inZeros := List.mem_append.mp member
      · exact isDigits char inDigits
      · exact isDigit_of_mem_zeros inZeros
    · rwa [List.head?_append_of_ne_nil _ nonempty]
  next =>
    simp only
    split
    next inside =>
      refine ⟨?_, fun char member => isDigits char (List.mem_of_mem_take member),
        fun char member => isDigits char (List.mem_of_mem_drop member), .inr ?_⟩
      · simp [nonempty]; omega
      · rw [List.head?_take, if_neg (by omega)]
        exact leading
    next =>
      refine ⟨List.cons_ne_nil _ _, by simp, fun char member => ?_, .inl rfl⟩
      obtain inZeros | inDigits := List.mem_append.mp member
      · exact isDigit_of_mem_zeros inZeros
      · exact isDigits char inDigits

theorem regular_scientific (lead : Int) : (scientific digits lead).Regular where
  whole_ne := by simp [scientific, nonempty]
  isWhole char member := isDigits char (List.mem_of_mem_take member)
  isFraction char member := isDigits char (List.mem_of_mem_drop member)
  leading := .inr (by rwa [scientific, List.head?_take, if_neg (by decide)])

omit nonempty isDigits leading

theorem digits_shortest_ne_zero (tie : Tie) {code : Nat} (positive : 0 < code) :
    (Decimal.shortest tie code).digits ≠ 0 := by
  intro zero
  have reads := Decimal.readsAs_shortest tie positive
  simp only [Decimal.readsAs, Binary64.roundsTo, Nat.ne_of_gt positive, Bool.and_eq_true,
    decide_false, Bool.false_or] at reads
  have reached := Binary64.le_of_roundsAbove reads.2
  have nothing : (Decimal.shortest tie code).num = 0 :=
    Nat.mul_eq_zero.mpr (.inl (Nat.mul_eq_zero.mpr (.inl zero)))
  have aboveZero : 0 < Binary64.halfway (code - 1) := by
    have less := Binary64.magnitude_lt_succ (code - 1)
    rw [Binary64.halfway]
    omega
  have product := Nat.mul_pos aboveZero (Decimal.shortest tie code).den_pos
  omega

/-- Every number has a regular numeral. -/
theorem regular_ofFloat {layout : Layout}
    (isFraction : ∀ char ∈ layout.wholeFraction, char.isDigit = true) (value : Float) :
    (ofFloat layout value).Regular := by
  suffices regular : (ofCode layout (Binary64.code value)).Regular from
    ⟨regular.whole_ne, regular.isWhole, regular.isFraction, regular.leading⟩
  rw [ofCode]
  split
  next =>
    exact ⟨by simp [positional], by simp [positional], by simpa [positional] using isFraction,
      .inl rfl⟩
  next nonzero =>
    have positive := digits_shortest_ne_zero layout.tie (Nat.pos_of_ne_zero nonzero)
    have leading := head?_toDigits_ne positive
    simp only
    split
    · exact regular_positional Nat.toDigits_ne_nil (fun char => isDigit_of_mem_toDigits) leading
        isFraction _
    · exact regular_scientific Nat.toDigits_ne_nil (fun char => isDigit_of_mem_toDigits) leading _

end Regular

end Numeral

namespace Json

/-- All strings and keys are texts, and all numbers are of a kind. -/
inductive Legible (numbers : Numeral → Prop) : Json → Prop
  | null : Legible numbers .null
  | bool (value : Bool) : Legible numbers (.bool value)
  | number {numeral : Numeral} (holds : numbers numeral) : Legible numbers (.number numeral)
  | string (text : String) : Legible numbers (.ofString text)
  | array {items : List Json} (each : ∀ item ∈ items, Legible numbers item) :
      Legible numbers (.array items)
  | object {fields : List (String × Json)} (each : ∀ field ∈ fields, Legible numbers field.2) :
      Legible numbers (.ofFields fields)

section Strings

theorem pieces_plain {char : Char} (notQuote : char ≠ '"') (notBackslash : char ≠ '\\')
    (notControl : ¬ char.toNat < 0x20) (rest : List Char) :
    pieces (char :: rest) = (pieces rest).map fun found => (.char char :: found.1, found.2) := by
  rw [pieces.eq_def]
  split
  · simp_all
  · simp_all
  · simp_all
  · simp_all
  next same =>
    cases same
    simp [notBackslash, notControl]
    cases pieces rest <;> rfl

theorem hexValue?_digitChar : ∀ digit < 16, hexValue? (Nat.digitChar digit) = some digit := by
  decide

theorem joinPieces_char (char : Char) (later : List Piece) :
    joinPieces (.char char :: later) = (joinPieces later).map (char :: ·) := by
  rw [joinPieces]
  cases joinPieces later <;> rfl

theorem joinPieces_unit {unit : Nat} (plain : unit < 0x20) (later : List Piece) :
    joinPieces (.unit unit :: later) = (joinPieces later).map (Char.ofNat unit :: ·) := by
  have notHigh : isHigh unit = false := by simp [isHigh]; omega
  have notLow : isLow unit = false := by simp [isLow]; omega
  rcases later with _ | ⟨char | low, rest⟩
  · simp [joinPieces, notHigh, notLow]
  · simp [joinPieces, notHigh, notLow]
    cases joinPieces rest <;> rfl
  · simp [joinPieces, notHigh, notLow]
    cases joinPieces (.unit low :: rest) <;> rfl

theorem pieces_named {letter char : Char} (named : escaped? letter = some char)
    (notUnit : letter ≠ 'u') (rest : List Char) :
    pieces ('\\' :: letter :: rest) =
      (pieces rest).map fun found => (.char char :: found.1, found.2) := by
  rw [pieces.eq_def]
  split
  · simp_all
  · simp_all
  · simp_all
  next same =>
    cases same
    rw [named]
    cases pieces rest <;> rfl
  next notLetter same =>
    cases same
    exact absurd rfl (notLetter letter rest rfl)

theorem pieces_unit {number : Nat} (control : number < 0x20) (rest : List Char) :
    pieces ('\\' :: 'u' :: '0' :: '0' :: Nat.digitChar (number / 16) ::
        Nat.digitChar (number % 16) :: rest) =
      (pieces rest).map fun found => (.unit number :: found.1, found.2) := by
  have spelled : hexUnit? '0' '0' (Nat.digitChar (number / 16)) (Nat.digitChar (number % 16)) =
      some number := by
    have zero : hexValue? '0' = some 0 := rfl
    rw [hexUnit?, zero, hexValue?_digitChar _ (by omega), hexValue?_digitChar _ (by omega)]
    change some _ = some _
    congr 1
    omega
  rw [pieces, spelled]
  cases pieces rest <;> rfl

/-- Every character is written as one piece that stands for it. -/
theorem exists_piece (char : Char) :
    ∃ piece, (∀ rest, pieces (escape char ++ rest) =
        (pieces rest).map fun found => (piece :: found.1, found.2)) ∧
      ∀ later, joinPieces (piece :: later) = (joinPieces later).map (char :: ·) := by
  have named : ∀ letter, escaped? letter = some char → letter ≠ 'u' →
      ∃ piece, (∀ rest, pieces (['\\', letter] ++ rest) =
          (pieces rest).map fun found => (piece :: found.1, found.2)) ∧
        ∀ later, joinPieces (piece :: later) = (joinPieces later).map (char :: ·) :=
    fun letter stands notUnit => ⟨.char char, pieces_named stands notUnit, joinPieces_char char⟩
  rw [escape]
  split
  next quote => exact named '"' (by rw [quote]; rfl) (by decide)
  next notQuote =>
    split
    next backslash => exact named '\\' (by rw [backslash]; rfl) (by decide)
    next notBackslash =>
      iterate 5
        split
        next same => exact named _ (by rw [same]; rfl) (by decide)
      split
      next control =>
        refine ⟨.unit char.toNat, pieces_unit control, fun later => ?_⟩
        rw [joinPieces_unit control, Char.ofNat_toNat]
      next notControl =>
        exact ⟨.char char, pieces_plain notQuote notBackslash notControl, joinPieces_char char⟩

theorem exists_pieces (chars rest : List Char) :
    ∃ found, pieces (chars.flatMap escape ++ '"' :: rest) = some (found, rest) ∧
      joinPieces found = some chars := by
  induction chars with
  | nil => exact ⟨[], pieces.eq_2 rest, rfl⟩
  | cons char chars ih =>
      obtain ⟨later, laterRead, laterJoined⟩ := ih
      obtain ⟨piece, read, joined⟩ := exists_piece char
      refine ⟨piece :: later, ?_, ?_⟩
      · rw [List.flatMap_cons, List.append_assoc, read, laterRead]
        rfl
      · rw [joined, laterJoined]
        rfl

/-- A written text is read back, whatever follows it. -/
theorem readString_escape (text : String) (rest : List Char) :
    readString (text.toList.flatMap escape ++ '"' :: rest) = some (some text, rest) := by
  obtain ⟨found, read, joined⟩ := exists_pieces text.toList rest
  rw [readString, read]
  change some ((joinPieces found).map String.ofList, rest) = _
  rw [joined, Option.map_some, String.ofList_toList]

end Strings

section Numbers

/-- No digit stands in front. -/
def NoDigit (rest : List Char) : Prop := ∀ char ∈ rest.head?, char.isDigit = false

/-- Nothing in front would go on with a number. -/
structure NoNumber (rest : List Char) : Prop where
  digit : NoDigit rest
  point : rest.head? ≠ some '.'
  letter : rest.head? ≠ some 'e'
  capital : rest.head? ≠ some 'E'

theorem noNumber_nil : NoNumber [] := ⟨by simp [NoDigit], by simp, by simp, by simp⟩

theorem readDigits_append {digits rest : List Char} (nonempty : digits ≠ [])
    (isDigits : ∀ char ∈ digits, char.isDigit = true) (stops : NoDigit rest) :
    readDigits (digits ++ rest) = some (digits, rest) := by
  have taken : rest.takeWhile Char.isDigit = [] := by
    cases rest with
    | nil => rfl
    | cons char rest => simp [stops char rfl]
  have left : rest.dropWhile Char.isDigit = rest := by
    cases rest with
    | nil => rfl
    | cons char rest => simp [stops char rfl]
  simp only [readDigits, List.takeWhile_append_of_pos isDigits, taken, List.append_nil,
    List.dropWhile_append_of_pos isDigits, left]
  simp [nonempty]

theorem readWhole_append {numeral : Numeral} (regular : numeral.Regular) {rest : List Char}
    (stops : NoDigit rest) :
    readWhole (numeral.whole ++ rest) = some (numeral.whole, rest) := by
  obtain zero | notZero := regular.leading
  · rw [zero]
    rfl
  · rw [readWhole.eq_2]
    · exact readDigits_append regular.whole_ne regular.isWhole stops
    · intro more zeroFirst
      obtain ⟨first, others, whole⟩ := List.exists_cons_of_ne_nil regular.whole_ne
      rw [whole] at zeroFirst notZero
      cases zeroFirst
      exact notZero rfl

theorem readFraction_append {fraction rest : List Char}
    (isDigits : ∀ char ∈ fraction, char.isDigit = true) (stops : NoDigit rest)
    (noPoint : rest.head? ≠ some '.') :
    readFraction ((if fraction.isEmpty then [] else '.' :: fraction) ++ rest) =
      some (fraction, rest) := by
  cases fraction with
  | nil =>
      rw [if_pos List.isEmpty_nil, List.nil_append, readFraction.eq_2]
      intro more point
      exact noPoint (by rw [point]; rfl)
  | cons first others =>
      rw [if_neg (by simp), List.cons_append, readFraction]
      exact readDigits_append (List.cons_ne_nil _ _) isDigits stops

theorem readDigits_toDigits (value : Nat) {rest : List Char} (stops : NoDigit rest) :
    readDigits (Nat.toDigits 10 value ++ rest) = some (Nat.toDigits 10 value, rest) :=
  readDigits_append Nat.toDigits_ne_nil
    (fun _ => Numeral.isDigit_of_mem_toDigits) stops

theorem readExponent_append (exponent : Option Int) {rest : List Char} (stops : NoNumber rest) :
    readExponent ((exponent.map Numeral.exponentChars).getD [] ++ rest) =
      some (exponent, rest) := by
  cases exponent with
  | none =>
      rw [Option.map_none, Option.getD_none, List.nil_append, readExponent.eq_3]
      · intro more letter
        exact stops.letter (by rw [letter]; rfl)
      · intro more capital
        exact stops.capital (by rw [capital]; rfl)
  | some exponent =>
      rw [Option.map_some, Option.getD_some, Numeral.exponentChars, List.cons_append, readExponent,
        List.cons_append]
      by_cases below : exponent < 0
      · rw [if_pos below, readExponentAfter, readDigits_toDigits _ stops.digit]
        change some (some (-((Numeral.natural _ : Nat) : Int)), rest) = _
        rw [Numeral.natural_toDigits]
        congr 3
        omega
      · rw [if_neg below, readExponentAfter, readDigits_toDigits _ stops.digit]
        change some (some ((Numeral.natural _ : Nat) : Int), rest) = _
        rw [Numeral.natural_toDigits]
        congr 3
        omega

theorem noDigit_exponent (exponent : Option Int) {rest : List Char} (stops : NoNumber rest) :
    NoDigit ((exponent.map Numeral.exponentChars).getD [] ++ rest) ∧
      ((exponent.map Numeral.exponentChars).getD [] ++ rest).head? ≠ some '.' := by
  cases exponent with
  | none => exact ⟨stops.digit, stops.point⟩
  | some exponent => simp [Numeral.exponentChars, NoDigit]

theorem noDigit_fraction (fraction : List Char) {rest : List Char} (stops : NoDigit rest) :
    NoDigit ((if fraction.isEmpty then [] else '.' :: fraction) ++ rest) := by
  split
  · exact stops
  · simp [NoDigit]

theorem readMagnitude_append {numeral : Numeral} (regular : numeral.Regular) {rest : List Char}
    (stops : NoNumber rest) :
    readMagnitude numeral.negative (numeral.whole
      ++ ((if numeral.fraction.isEmpty then [] else '.' :: numeral.fraction)
      ++ ((numeral.exponent.map Numeral.exponentChars).getD [] ++ rest))) =
        some (numeral, rest) := by
  obtain ⟨noDigit, noPoint⟩ := noDigit_exponent numeral.exponent stops
  rw [readMagnitude, readWhole_append regular (noDigit_fraction numeral.fraction noDigit)]
  simp only [Option.bind_eq_bind, Option.bind_some,
    readFraction_append regular.isFraction noDigit noPoint, readExponent_append _ stops]
  rfl

/-- A regular numeral is read back, whatever follows it that does not go on with it. -/
theorem readNumber_chars {numeral : Numeral} (regular : numeral.Regular) {rest : List Char}
    (stops : NoNumber rest) : readNumber (numeral.chars ++ rest) = some (numeral, rest) := by
  have magnitude := readMagnitude_append regular stops
  simp only [Numeral.chars, List.append_assoc]
  cases sign : numeral.negative with
  | true =>
      rw [sign] at magnitude
      exact magnitude
  | false =>
      rw [sign] at magnitude
      rw [if_neg Bool.false_ne_true, List.nil_append, readNumber.eq_2]
      · exact magnitude
      · intro more minus
        obtain ⟨first, others, whole⟩ := List.exists_cons_of_ne_nil regular.whole_ne
        have isDigit := regular.isWhole first (by simp [whole])
        rw [whole] at minus
        cases minus
        contradiction

end Numbers

section Values

variable {json : Json} {calls : Nat} {rest : List Char}

theorem noNumber_delimiter {char : Char} (delimits : char ∈ [',', ']', '\x7d'])
    (rest : List Char) : NoNumber (char :: rest) := by
  simp only [List.mem_cons, List.not_mem_nil, or_false] at delimits
  obtain rfl | rfl | rfl := delimits <;>
    exact ⟨by simp [NoDigit], by simp, by simp, by simp⟩

/-- A regular numeral starts with a sign or a digit. -/
theorem exists_first_of_regular {numeral : Numeral} (regular : numeral.Regular) :
    ∃ first more, numeral.chars = first :: more ∧ (first = '-' ∨ first.isDigit = true) := by
  obtain ⟨first, others, whole⟩ := List.exists_cons_of_ne_nil regular.whole_ne
  have isDigit := regular.isWhole first (by simp [whole])
  simp only [Numeral.chars, List.append_assoc]
  cases numeral.negative with
  | true => exact ⟨'-', _, rfl, .inl rfl⟩
  | false =>
      rw [whole]
      exact ⟨first, _, rfl, .inr isDigit⟩

theorem not_isSpace_of_starts {first : Char} (starts : first = '-' ∨ first.isDigit = true) :
    isSpace first = false := by
  by_contra space
  simp only [isSpace, Bool.not_eq_false, Bool.or_eq_true, decide_eq_true_eq] at space
  obtain ((rfl | rfl) | rfl) | rfl := space <;> obtain same | isDigit := starts <;> contradiction

/-- A value starts with neither white space nor a closing bracket. -/
theorem Legible.exists_first (legible : json.Legible Numeral.Regular) :
    ∃ first more, json.chars = first :: more ∧ isSpace first = false ∧ first ≠ ']' := by
  cases legible with
  | null => exact ⟨_, _, rfl, rfl, by decide⟩
  | bool value => cases value <;> exact ⟨_, _, rfl, rfl, by decide⟩
  | number regular =>
      obtain ⟨first, more, spelled, starts⟩ := exists_first_of_regular regular
      refine ⟨first, more, spelled, not_isSpace_of_starts starts, ?_⟩
      rintro rfl
      obtain same | isDigit := starts <;> contradiction
  | string text => exact ⟨_, _, rfl, rfl, by decide⟩
  | array each => exact ⟨_, _, rfl, rfl, by decide⟩
  | object each => exact ⟨_, _, rfl, rfl, by decide⟩

theorem skip_cons {first : Char} (notSpace : isSpace first = false) (more : List Char) :
    skip (first :: more) = first :: more := by
  rw [skip, List.dropWhile_cons_of_neg (by simp [notSpace])]

theorem readValue_number {first : Char} (starts : first = '-' ∨ first.isDigit = true)
    (calls : Nat) (more : List Char) :
    readValue (calls + 1) (first :: more) =
      (readNumber (first :: more)).map fun found => (.number found.1, found.2) := by
  rw [readValue, skip_cons (not_isSpace_of_starts starts)]
  split
  case h_7 => cases readNumber (first :: more) <;> rfl
  all_goals
    next same =>
      cases same
      obtain same | isDigit := starts <;> contradiction

/-- The items of an array are read back, if each of them is. -/
theorem readItems_chars {items : List Json} (nonempty : items ≠ [])
    (each : ∀ item ∈ items, ∀ calls rest, 2 * item.chars.length ≤ calls + 1 → NoNumber rest →
      readValue (calls + 1) (item.chars ++ rest) = some (item, rest))
    (enough : 2 * (itemChars items).length + 1 < calls) :
    readItems calls (itemChars items ++ ']' :: rest) = some (items, rest) := by
  induction items generalizing calls with
  | nil => contradiction
  | cons item items ih =>
      obtain ⟨here, later⟩ := List.forall_mem_cons.mp each
      obtain ⟨calls, rfl⟩ := Nat.exists_eq_add_of_le' (show 2 ≤ calls by omega)
      cases items with
      | nil =>
          rw [itemChars] at enough ⊢
          rw [readItems, here calls (']' :: rest) (by omega) (noNumber_delimiter (by simp) rest)]
          rfl
      | cons next others =>
          rw [itemChars.eq_3 _ _ (List.cons_ne_nil _ _)] at enough ⊢
          rw [List.length_append, List.length_cons] at enough
          have nextRead := ih (List.cons_ne_nil _ _) later (show _ < calls + 1 by omega)
          rw [List.append_assoc, List.cons_append, readItems,
            here calls _ (by omega) (noNumber_delimiter (by simp) _)]
          change ((readItems (calls + 1) _).bind fun found => some (item :: found.1, found.2)) = _
          rw [nextRead]
          rfl

theorem readFields_last {name : String} {value : Json} {input : List Char}
    (read : readValue calls input = some (value, '\x7d' :: rest)) :
    readFields (calls + 1) (stringChars name ++ ':' :: input) =
      some ([(some name, value)], rest) := by
  simp only [stringChars, List.cons_append, List.append_assoc, List.nil_append]
  rw [readFields, skip_cons rfl]
  simp only [readString_escape, Option.bind_eq_bind, Option.bind_some,
    skip_cons (show isSpace ':' = false from rfl), read]
  rfl

theorem readFields_next {name : String} {value : Json} {input : List Char}
    (read : readValue calls input = some (value, ',' :: rest)) :
    readFields (calls + 1) (stringChars name ++ ':' :: input) =
      (readFields calls rest).map fun found => ((some name, value) :: found.1, found.2) := by
  simp only [stringChars, List.cons_append, List.append_assoc, List.nil_append]
  rw [readFields, skip_cons rfl]
  simp only [readString_escape, Option.bind_eq_bind, Option.bind_some,
    skip_cons (show isSpace ':' = false from rfl), read,
    skip_cons (show isSpace ',' = false from rfl)]
  cases readFields calls rest <;> rfl

/-- The fields of an object are read back, if each value is. -/
theorem readFields_chars {fields : List (String × Json)} (nonempty : fields ≠ [])
    (each : ∀ field ∈ fields, ∀ calls rest, 2 * field.2.chars.length ≤ calls + 1 →
      NoNumber rest → readValue (calls + 1) (field.2.chars ++ rest) = some (field.2, rest))
    (enough : 2 * (fieldChars (fields.map fun field => (some field.1, field.2))).length + 1 <
      calls) :
    readFields calls (fieldChars (fields.map fun field => (some field.1, field.2)) ++
      '\x7d' :: rest) = some (fields.map fun field => (some field.1, field.2), rest) := by
  induction fields generalizing calls with
  | nil => contradiction
  | cons field fields ih =>
      obtain ⟨here, later⟩ := List.forall_mem_cons.mp each
      obtain ⟨calls, rfl⟩ := Nat.exists_eq_add_of_le' (show 2 ≤ calls by omega)
      cases fields with
      | nil =>
          simp only [List.map_cons, List.map_nil, fieldChars, Option.getD_some,
            List.append_assoc, List.cons_append, List.length_cons,
            List.length_append] at enough ⊢
          exact readFields_last (here calls _ (by omega) (noNumber_delimiter (by simp) rest))
      | cons next others =>
          rw [List.map_cons, fieldChars.eq_3 _ _ _ (by simp)] at enough ⊢
          simp only [Option.getD_some, List.append_assoc, List.cons_append, List.length_cons,
            List.length_append] at enough ⊢
          rw [readFields_next (here calls _ (by omega) (noNumber_delimiter (by simp) _)),
            ih (List.cons_ne_nil _ _) later (by omega)]
          rfl

theorem exists_fieldChars_eq_cons {fields : List (String × Json)} (nonempty : fields ≠ []) :
    ∃ more, fieldChars (fields.map fun field => (some field.1, field.2)) = '"' :: more := by
  match fields with
  | [] => contradiction
  | [field] => exact ⟨_, rfl⟩
  | field :: next :: others => exact ⟨_, rfl⟩

theorem exists_itemChars_eq_cons {items : List Json} (nonempty : items ≠ [])
    (each : ∀ item ∈ items, item.Legible Numeral.Regular) :
    ∃ first more, itemChars items = first :: more ∧ isSpace first = false ∧ first ≠ ']' := by
  match items with
  | [] => contradiction
  | [item] => exact (each item (by simp)).exists_first
  | item :: next :: others =>
      obtain ⟨first, more, spelled, starts⟩ := (each item (by simp)).exists_first
      rw [itemChars.eq_3 _ _ (List.cons_ne_nil _ _), spelled]
      exact ⟨first, _, rfl, starts⟩

theorem readValue_string (text : String) :
    readValue (calls + 1) (stringChars text ++ rest) = some (ofString text, rest) := by
  simp only [stringChars, List.cons_append, List.append_assoc, List.nil_append]
  rw [readValue, skip_cons rfl]
  simp only [readString_escape, Option.bind_eq_bind, Option.bind_some]
  rfl

theorem readValue_array {items : List Json} {input first more} (starts : input = first :: more)
    (notSpace : isSpace first = false) (notEnd : first ≠ ']')
    (read : readItems calls input = some (items, rest)) :
    readValue (calls + 1) ('[' :: input) = some (.array items, rest) := by
  subst starts
  rw [readValue, skip_cons rfl]
  simp only [skip_cons notSpace]
  split
  · next same =>
      cases same
      contradiction
  · rw [read]
    rfl

theorem readValue_object {fields : List (Option String × Json)} {more}
    (read : readFields calls ('"' :: more) = some (fields, rest)) :
    readValue (calls + 1) ('\x7b' :: '"' :: more) = some (.object fields, rest) := by
  rw [readValue, skip_cons rfl]
  simp only [skip_cons (show isSpace '"' = false from rfl), read]
  rfl

/-- A written value is read back, whatever follows it that does not go on with a number.  As many
calls are enough as twice its characters. -/
theorem Legible.readValue_chars (legible : json.Legible Numeral.Regular)
    (enough : 2 * json.chars.length ≤ calls + 1) (stops : NoNumber rest) :
    readValue (calls + 1) (json.chars ++ rest) = some (json, rest) := by
  induction legible generalizing calls rest with
  | null => rfl
  | bool value => cases value <;> rfl
  | number regular =>
      obtain ⟨first, more, spelled, starts⟩ := exists_first_of_regular regular
      have read := readNumber_chars regular stops
      rw [chars]
      rw [spelled, List.cons_append] at read ⊢
      rw [readValue_number starts, read]
      rfl
  | string text => exact readValue_string text
  | @array items each ih =>
      by_cases empty : items = []
      · rw [empty]
        rfl
      · simp only [chars, List.cons_append, List.append_assoc, List.nil_append, List.length_cons,
          List.length_append] at enough ⊢
        obtain ⟨first, more, spelled, notSpace, notEnd⟩ := exists_itemChars_eq_cons empty each
        refine readValue_array (by rw [spelled, List.cons_append]) notSpace notEnd ?_
        exact readItems_chars empty (fun item mem calls rest => ih item mem) (by omega)
  | @object fields each ih =>
      by_cases empty : fields = []
      · rw [empty]
        rfl
      · simp only [ofFields, chars, List.cons_append, List.append_assoc, List.nil_append,
          List.length_cons, List.length_append] at enough ⊢
        obtain ⟨more, spelled⟩ := exists_fieldChars_eq_cons empty
        rw [spelled, List.cons_append]
        refine readValue_object ?_
        rw [← List.cons_append, ← spelled]
        exact readFields_chars empty (fun field mem calls rest => ih field mem) (by omega)

/-- The text of a value is read as the value. -/
theorem Legible.parse?_render (legible : json.Legible Numeral.Regular) :
    parse? json.render = some json := by
  have enough : 2 * json.chars.length ≤ 2 * json.chars.length + 1 + 1 := by omega
  have read := legible.readValue_chars enough noNumber_nil
  rw [List.append_nil] at read
  rw [parse?, render, String.toList_ofList, read]
  rfl

end Values

end Json

end Tacit
