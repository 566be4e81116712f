import Tacit.Keyword
import Tacit.Token
import Tacit.Trie

/-!
# Splitting a source into tokens

At every place of a source the longest keyword wins, then a number, then an identifier.  Nothing
is skipped: the lexemes of the tokens, one after another, are the source.
-/

namespace Tacit

/-- A token with the bytes of the source it was read from. -/
structure Span where
  /-- The token. -/
  token : Token
  /-- The byte at which it starts. -/
  start : Nat
  /-- The byte after its last one. -/
  stop : Nat
  deriving DecidableEq

/-- A vocabulary made ready for reading sources. -/
structure Lexer where
  /-- The keywords. -/
  table : KeywordTable
  /-- The greatest number of tokens in a source. -/
  limit : UInt64 := 1000
  /-- The spellings of the keywords as a trie. -/
  trie : Trie := .ofList table.spellings
  /-- The trie holds exactly the spellings. -/
  trie_eq : trie = .ofList table.spellings := by rfl

namespace Lexer

/-- Whether a character can follow the first digit of a number. -/
def continuesNumber (char : Char) : Bool := char.isDigit || char = '.'

/-- The characters of the number at the start of an input, none if no number starts there. -/
def numberLexeme : List Char → List Char
  | [] => []
  | first :: rest => if first.isDigit then first :: rest.takeWhile continuesNumber else []

/-- The characters of the identifier at the start of an input, none if no identifier starts
there. -/
def identifierLexeme : List Char → List Char
  | [] => []
  | first :: rest => if first.isLower then first :: rest.takeWhile Char.isAlphanum else []

/-- The value of the characters of a number.  Whatever follows a second point has no weight. -/
def numberValue (lexeme : List Char) : Float :=
  let whole := lexeme.takeWhile Char.isDigit
  let fraction := ((lexeme.dropWhile Char.isDigit).drop 1).takeWhile Char.isDigit
  (Numeral.decimal whole fraction).toFloat

/-- The first token of an input, with its characters. -/
def read? (lexer : Lexer) (input : List Char) : Option (Token × List Char) :=
  match lexer.trie.longest? input with
  | some (spelling, _) => some (.keyword spelling, spelling.toList)
  | none =>
      match numberLexeme input with
      | first :: rest => some (.number (numberValue (first :: rest)), first :: rest)
      | [] =>
          match identifierLexeme input with
          | first :: rest => some (.identifier (String.ofList (first :: rest)), first :: rest)
          | [] => none

/-- The number of bytes of a text. -/
def byteSize (text : List Char) : Nat :=
  text.foldr (fun char size => char.utf8Size + size) 0

/-- The spans of an input that follows `count` tokens, starting at the given byte and character of
the source. -/
def spansFrom (lexer : Lexer) (count start position : Nat) :
    List Char → Except LexError (List Span)
  | [] => .ok []
  | first :: rest =>
      if lexer.limit.toNat ≤ count then .error (.tokenLimitExceeded lexer.limit)
      else match lexer.read? (first :: rest) with
        | none => .error (.unexpectedChar first position)
        | some (token, lexeme) => do
            let stop := start + byteSize lexeme
            let later ← lexer.spansFrom (count + 1) stop (position + lexeme.length)
              (rest.drop (lexeme.length - 1))
            return ⟨token, start, stop⟩ :: later
termination_by input => input.length
decreasing_by
  simp only [List.length_drop, List.length_cons]
  omega

/-- The tokens of a source with the bytes they were read from. -/
def spans (lexer : Lexer) (source : String) : Except LexError (List Span) :=
  lexer.spansFrom 0 0 0 source.toList

/-- The tokens of a source. -/
def tokens (lexer : Lexer) (source : String) : Except LexError (List Token) := do
  let found ← lexer.spans source
  return found.map Span.token

end Lexer

end Tacit
