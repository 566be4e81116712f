import Tacit.Json

/-!
# Writing JSON

Values are written without white space, fields in the order they have.
-/

namespace Tacit.Json

/-- How a character stands in a string. -/
def escape (char : Char) : List Char :=
  if char = '"' then ['\\', '"']
  else if char = '\\' then ['\\', '\\']
  else if char = '\x08' then ['\\', 'b']
  else if char = '\x0c' then ['\\', 'f']
  else if char = '\n' then ['\\', 'n']
  else if char = '\r' then ['\\', 'r']
  else if char = '\t' then ['\\', 't']
  else if char.toNat < 0x20 then
    ['\\', 'u', '0', '0', Nat.digitChar (char.toNat / 16), Nat.digitChar (char.toNat % 16)]
  else [char]

/-- The characters of a string. -/
def stringChars (text : String) : List Char :=
  '"' :: text.toList.flatMap escape ++ ['"']

mutual

/-- The characters of a value. -/
def chars : Json → List Char
  | null => ['n', 'u', 'l', 'l']
  | bool true => ['t', 'r', 'u', 'e']
  | bool false => ['f', 'a', 'l', 's', 'e']
  | number numeral => numeral.chars
  | string text? => stringChars (text?.getD "")
  | array items => '[' :: itemChars items ++ [']']
  | object fields => '\x7b' :: fieldChars fields ++ ['\x7d']

/-- The characters of items, with commas between them. -/
def itemChars : List Json → List Char
  | [] => []
  | [item] => item.chars
  | item :: rest => item.chars ++ ',' :: itemChars rest

/-- The characters of fields, with commas between them. -/
def fieldChars : List (Option String × Json) → List Char
  | [] => []
  | [(name?, value)] => stringChars (name?.getD "") ++ ':' :: value.chars
  | (name?, value) :: rest =>
      stringChars (name?.getD "") ++ ':' :: value.chars ++ ',' :: fieldChars rest

end

/-- The text of a value. -/
def render (json : Json) : String := String.ofList json.chars

end Tacit.Json
