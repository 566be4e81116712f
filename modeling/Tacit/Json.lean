import Tacit.Numeral

/-!
# JSON values

The data in which settings, vocabularies, tokens, formulas and graphs are stored.  A value keeps
numbers as they are written.  A string whose escapes name half of a surrogate pair is no text: it
can stand in a part that is passed over, but not be read.
-/

namespace Tacit

/-- A JSON value.  Strings and keys are `none` where they are no text. -/
inductive Json where
  | null
  | bool (value : Bool)
  | number (numeral : Numeral)
  | string (text? : Option String)
  | array (items : List Json)
  | object (fields : List (Option String × Json))

namespace Json

/-- The string of a text. -/
def ofString (text : String) : Json := string (some text)

/-- The object with these fields. -/
def ofFields (fields : List (String × Json)) : Json :=
  object (fields.map fun field => (some field.1, field.2))

/-- The number of a natural number. -/
def ofNat (value : Nat) : Json := number { whole := Nat.toDigits 10 value }

/-- Plain digits from `0.00001` up to `10 ^ 16`, an exponent elsewhere, and `.0` after whole
numbers. -/
def layout : Numeral.Layout where
  tie := .even
  wholeFraction := ['0']
  isPlain lead := -5 ≤ lead && lead < 16

/-- The number of a floating-point number; without one it is null. -/
def ofFloat (value : Float) : Json :=
  if value.isFinite then number (.ofFloat layout value) else null

/-- Take digits into a significand as long as it fits 64 bits.  The second result counts the
digits taken. -/
def absorb (significand : Nat) : List Char → Nat × Nat
  | [] => (significand, 0)
  | digit :: rest =>
      let next := 10 * significand + Numeral.digitValue digit
      if next < Nat.pow 2 64 then
        let (total, taken) := absorb next rest
        (total, taken + 1)
      else (significand, 0)

/-- The floating-point power of ten. -/
def powerOfTen (exponent : Nat) : Float := (⟨1, exponent⟩ : Decimal).toFloat

/-- Move the point of a number by floating-point arithmetic, if the result is finite. -/
def scale? (value : Float) (exponent : Int) : Option Float :=
  if 0 ≤ exponent then
    if exponent ≤ 308 then
      let scaled := value * powerOfTen exponent.toNat
      if scaled.isInf then none else some scaled
    else if value == 0.0 then some value else none
  else
    let places := (-exponent).toNat
    if places ≤ 308 then some (value / powerOfTen places)
    else if places ≤ 616 then some (value / powerOfTen 308 / powerOfTen (places - 308))
    else some 0.0

/-- The floating-point number that a numeral is read as, if it is finite.  The digits that fit 64
bits are rounded once, and once more when the point is moved. -/
def floatOf? (numeral : Numeral) : Option Float := do
  let (wholePart, wholeTaken) := absorb 0 numeral.whole
  let (significand, fractionTaken) := absorb wholePart numeral.fraction
  let dropped := numeral.whole.length - wholeTaken
  let exponent := numeral.exponent.getD 0 + dropped - fractionTaken
  let value ← scale? (⟨significand, 0⟩ : Decimal).toFloat exponent
  return if numeral.negative then -value else value

/-- The floating-point number that a value is. -/
def toFloat? : Json → Option Float
  | number numeral => floatOf? numeral
  | _ => none

/-- The unsigned number of 64 bits that a value is.  It has neither sign, point nor exponent. -/
def toUInt64? : Json → Option UInt64
  | number ⟨false, whole, [], none⟩ =>
      let value := Numeral.natural whole
      if value < Nat.pow 2 64 then some (.ofNat value) else none
  | _ => none

/-- The truth value that a value is. -/
def toBool? : Json → Option Bool
  | bool value => some value
  | _ => none

/-- The text that a value is. -/
def toText? : Json → Option String
  | string text? => text?
  | _ => none

/-- The items of an array, each read in the same way. -/
def toList? {α : Type} (read? : Json → Option α) : Json → Option (List α)
  | array items => items.mapM read?
  | _ => none

/-- The entries of an object, each read in the same way. -/
def toEntries? {α : Type} (read? : Json → Option α) : Json → Option (List (String × α))
  | object fields => fields.mapM fun field => do
      let name ← field.1
      let value ← read? field.2
      return (name, value)
  | _ => none

/-- The values of fields under a name.  A name given twice is refused. -/
def field? (fields : List (Option String × Json)) (name : String) : Option (Option Json) :=
  match fields.filter fun field => field.1 = some name with
  | [] => some none
  | [field] => some (some field.2)
  | _ => none

/-- The values of the named fields of a record, in the order of the names.  A record is an object,
in which other fields are passed over, or an array without names, which may stop early. -/
def record? (names : List String) : Json → Option (List (Option Json))
  | object fields =>
      if fields.all fun field => field.1.isSome then names.mapM (field? fields) else none
  | array items =>
      if items.length ≤ names.length then
        some (items.map some ++ List.replicate (names.length - items.length) none)
      else none
  | _ => none

/-- The field that says of which kind an object is, and the other fields.  In an array it is the
first item. -/
def tagged? : Json → Option (Json × Json)
  | object fields => do
      let kind? ← field? fields "type"
      let kind ← kind?
      return (kind, object (fields.filter fun field => field.1 ≠ some "type"))
  | array (kind :: items) => some (kind, array items)
  | _ => none

/-- The word that a value is: a text, or an object with that word as its only key.  What stands
under the key has to be nothing, as told by `isNothing`. -/
def word? (isNothing : Json → Bool) : Json → Option String
  | string text? => text?
  | object [(key?, value)] => if isNothing value then key? else none
  | _ => none

/-- Whether a value is null. -/
def isNull : Json → Bool
  | null => true
  | _ => false

/-- Whether a value is null or an object without fields. -/
def isVoid : Json → Bool
  | null | object [] => true
  | _ => false

mutual

/-- Whether all of a value can be read: texts are texts, numbers are whole numbers of 64 bits or
finite, and no more than `depth` arrays and objects stand inside one another. -/
def isReadable (depth : Nat) : Json → Bool
  | null | bool _ => true
  | number numeral => (number numeral).toUInt64?.isSome || (floatOf? numeral).isSome
  | string text? => text?.isSome
  | array items => 0 < depth && areReadable (depth - 1) items
  | object fields => 0 < depth && fieldsAreReadable (depth - 1) fields

/-- Whether all items can be read. -/
def areReadable (depth : Nat) : List Json → Bool
  | [] => true
  | item :: rest => item.isReadable depth && areReadable depth rest

/-- Whether all fields can be read. -/
def fieldsAreReadable (depth : Nat) : List (Option String × Json) → Bool
  | [] => true
  | (name?, value) :: rest =>
      name?.isSome && value.isReadable depth && fieldsAreReadable depth rest

end

/-- The greatest number of arrays and objects inside one another that is read. -/
def maxDepth : Nat := 127

end Json

end Tacit
