/-!
# Blanks and words

The words of a text are its longest stretches without white space.
-/

namespace Tacit.Text

/-- The first and last characters of each stretch of white space. -/
def blankRanges : List (Nat × Nat) :=
  [(0x9, 0xd), (0x20, 0x20), (0x85, 0x85), (0xa0, 0xa0), (0x1680, 0x1680), (0x2000, 0x200a),
    (0x2028, 0x2029), (0x202f, 0x202f), (0x205f, 0x205f), (0x3000, 0x3000)]

/-- Whether a character is white space. -/
def isBlank (char : Char) : Bool :=
  blankRanges.any fun range => range.1 ≤ char.toNat && char.toNat ≤ range.2

/-- Put a word in front of others unless it is empty. -/
def consWord (word : List Char) (words : List (List Char)) : List (List Char) :=
  if word.isEmpty then words else word :: words

/-- The word that a text starts with, possibly empty, and the words after it. -/
def splitWords : List Char → List Char × List (List Char)
  | [] => ([], [])
  | char :: rest =>
      let (word, words) := splitWords rest
      if isBlank char then ([], consWord word words) else (char :: word, words)

/-- The words of a text in order. -/
def words (text : String) : List String :=
  let (word, others) := splitWords text.toList
  (consWord word others).map String.ofList

end Tacit.Text
