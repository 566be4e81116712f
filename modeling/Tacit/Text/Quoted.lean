import Tacit.Text.Unprintable

/-!
# Quoted text

Messages show characters and strings between quotes.  The quote itself, the backslash and every
character without a printed form are escaped, so that a quoted text reads in one way only.
-/

namespace Tacit.Text

/-- How one character stands between two quotes. -/
def escape (quote char : Char) : List Char :=
  if char = '\x00' then ['\\', '0']
  else if char = '\t' then ['\\', 't']
  else if char = '\r' then ['\\', 'r']
  else if char = '\n' then ['\\', 'n']
  else if char = '\\' || char = quote then ['\\', char]
  else if isUnprintable char then
    '\\' :: 'u' :: '\x7b' :: Nat.toDigits 16 char.toNat ++ ['\x7d']
  else [char]

/-- A character between single quotes. -/
def quoteChar (char : Char) : String :=
  String.ofList ('\'' :: escape '\'' char ++ ['\''])

/-- A string between double quotes. -/
def quote (text : String) : String :=
  String.ofList ('"' :: text.toList.flatMap (escape '"') ++ ['"'])

end Tacit.Text
