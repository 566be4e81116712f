import Tacit.Json

/-!
# Reading JSON

A text is one value with white space around it.  The reader is strict: no comments, no commas at
the end of a list, no leading zeros, no control characters in strings.
-/

namespace Tacit.Json

/-- Whether a character is white space between the parts of a text. -/
def isSpace (char : Char) : Bool :=
  char = ' ' || char = '\t' || char = '\n' || char = '\r'

/-- Drop the white space in front. -/
def skip (input : List Char) : List Char := input.dropWhile isSpace

/-- The number that a hexadecimal digit stands for. -/
def hexValue? (char : Char) : Option Nat :=
  if char.isDigit then some (char.toNat - '0'.toNat)
  else if 'a' ≤ char && char ≤ 'f' then some (char.toNat - 'a'.toNat + 10)
  else if 'A' ≤ char && char ≤ 'F' then some (char.toNat - 'A'.toNat + 10)
  else none

/-- The number that four hexadecimal digits spell. -/
def hexUnit? (a b c d : Char) : Option Nat := do
  let high ← hexValue? a
  let upper ← hexValue? b
  let lower ← hexValue? c
  let low ← hexValue? d
  return ((high * 16 + upper) * 16 + lower) * 16 + low

/-- The character that a letter after a backslash stands for. -/
def escaped? : Char → Option Char
  | '"' => some '"'
  | '\\' => some '\\'
  | '/' => some '/'
  | 'b' => some '\x08'
  | 'f' => some '\x0c'
  | 'n' => some '\n'
  | 'r' => some '\r'
  | 't' => some '\t'
  | _ => none

/-- A part of a string: a character, or a unit of 16 bits given by its number. -/
inductive Piece where
  | char (char : Char)
  | unit (number : Nat)

/-- The pieces of a string up to its closing quote, and what follows the quote. -/
def pieces : List Char → Option (List Piece × List Char)
  | [] => none
  | '"' :: rest => some ([], rest)
  | '\\' :: 'u' :: a :: b :: c :: d :: rest => do
      let number ← hexUnit? a b c d
      let (later, rest) ← pieces rest
      return (.unit number :: later, rest)
  | '\\' :: letter :: rest => do
      let char ← escaped? letter
      let (later, rest) ← pieces rest
      return (.char char :: later, rest)
  | char :: rest =>
      if char = '\\' || char.toNat < 0x20 then none
      else do
        let (later, rest) ← pieces rest
        return (.char char :: later, rest)

/-- Whether a unit is the first half of a surrogate pair. -/
def isHigh (unit : Nat) : Bool := 0xd800 ≤ unit && unit < 0xdc00

/-- Whether a unit is the second half of a surrogate pair. -/
def isLow (unit : Nat) : Bool := 0xdc00 ≤ unit && unit < 0xe000

/-- The characters of pieces, if every half of a surrogate pair has its other half. -/
def joinPieces : List Piece → Option (List Char)
  | [] => some []
  | .char char :: rest => do
      let later ← joinPieces rest
      return char :: later
  | .unit high :: .unit low :: rest =>
      if isHigh high && isLow low then do
        let later ← joinPieces rest
        return .ofNat (0x10000 + (high - 0xd800) * 0x400 + (low - 0xdc00)) :: later
      else if isHigh high || isLow high then none
      else do
        let later ← joinPieces (.unit low :: rest)
        return .ofNat high :: later
  | .unit unit :: rest =>
      if isHigh unit || isLow unit then none
      else do
        let later ← joinPieces rest
        return .ofNat unit :: later

/-- A string after its opening quote, and what follows it. -/
def readString (input : List Char) : Option (Option String × List Char) := do
  let (found, rest) ← pieces input
  return ((joinPieces found).map String.ofList, rest)

/-- Digits in front, at least one, and what follows them. -/
def readDigits (input : List Char) : Option (List Char × List Char) :=
  let digits := input.takeWhile Char.isDigit
  if digits.isEmpty then none else some (digits, input.dropWhile Char.isDigit)

/-- The digits before the point: a zero, or digits of which the first is no zero. -/
def readWhole : List Char → Option (List Char × List Char)
  | '0' :: rest => some (['0'], rest)
  | input => readDigits input

/-- The digits after a point, none if there is no point. -/
def readFraction : List Char → Option (List Char × List Char)
  | '.' :: rest => readDigits rest
  | input => some ([], input)

/-- The exponent after its letter. -/
def readExponentAfter : List Char → Option (Int × List Char)
  | '-' :: rest => do
      let (digits, rest) ← readDigits rest
      return (-(Numeral.natural digits : Int), rest)
  | '+' :: rest => do
      let (digits, rest) ← readDigits rest
      return ((Numeral.natural digits : Int), rest)
  | input => do
      let (digits, rest) ← readDigits input
      return ((Numeral.natural digits : Int), rest)

/-- The exponent, none if there is no letter for it. -/
def readExponent : List Char → Option (Option Int × List Char)
  | 'e' :: rest | 'E' :: rest => do
      let (exponent, rest) ← readExponentAfter rest
      return (some exponent, rest)
  | input => some (none, input)

/-- A number without its sign. -/
def readMagnitude (negative : Bool) (input : List Char) : Option (Numeral × List Char) := do
  let (whole, input) ← readWhole input
  let (fraction, input) ← readFraction input
  let (exponent, input) ← readExponent input
  return (⟨negative, whole, fraction, exponent⟩, input)

/-- A number. -/
def readNumber : List Char → Option (Numeral × List Char)
  | '-' :: rest => readMagnitude true rest
  | input => readMagnitude false input

mutual

/-- A value and what follows it.  The first argument bounds the calls. -/
def readValue : Nat → List Char → Option (Json × List Char)
  | 0, _ => none
  | calls + 1, input =>
      match skip input with
      | 'n' :: 'u' :: 'l' :: 'l' :: rest => some (null, rest)
      | 't' :: 'r' :: 'u' :: 'e' :: rest => some (bool true, rest)
      | 'f' :: 'a' :: 'l' :: 's' :: 'e' :: rest => some (bool false, rest)
      | '"' :: rest => do
          let (text?, rest) ← readString rest
          return (string text?, rest)
      | '[' :: rest =>
          match skip rest with
          | ']' :: rest => some (array [], rest)
          | _ => do
              let (items, rest) ← readItems calls rest
              return (array items, rest)
      | '\x7b' :: rest =>
          match skip rest with
          | '\x7d' :: rest => some (object [], rest)
          | _ => do
              let (fields, rest) ← readFields calls rest
              return (object fields, rest)
      | input => do
          let (numeral, rest) ← readNumber input
          return (number numeral, rest)

/-- The items of an array up to its bracket, at least one. -/
def readItems : Nat → List Char → Option (List Json × List Char)
  | 0, _ => none
  | calls + 1, input => do
      let (item, rest) ← readValue calls input
      match skip rest with
      | ']' :: rest => return ([item], rest)
      | ',' :: rest =>
          let (items, rest) ← readItems calls rest
          return (item :: items, rest)
      | _ => none

/-- The fields of an object up to its brace, at least one. -/
def readFields : Nat → List Char → Option (List (Option String × Json) × List Char)
  | 0, _ => none
  | calls + 1, input =>
      match skip input with
      | '"' :: rest => do
          let (name?, rest) ← readString rest
          match skip rest with
          | ':' :: rest =>
              let (value, rest) ← readValue calls rest
              match skip rest with
              | '\x7d' :: rest => return ([(name?, value)], rest)
              | ',' :: rest =>
                  let (fields, rest) ← readFields calls rest
                  return ((name?, value) :: fields, rest)
              | _ => none
          | _ => none
      | _ => none

end

/-- The value of a text.  Between two calls that take no character one takes a bracket, so twice
the length of the text bounds the calls. -/
def parse? (text : String) : Option Json := do
  let input := text.toList
  let (json, rest) ← readValue (2 * input.length + 2) input
  if (skip rest).isEmpty then return json else none

end Tacit.Json
