import Tacit.Numeral
import Tacit.Text.Quoted

/-!
# Tokens

A source text is a sequence of tokens: keywords, numbers and identifiers.  References and search
texts take the place of tokens inside expressions and have no spelling in a source.
-/

namespace Tacit

/-- The smallest parts of an expression. -/
inductive Token where
  /-- A spelling of the vocabulary. -/
  | keyword (spelling : String)
  /-- A name that has not been resolved. -/
  | identifier (name : String)
  /-- A number. -/
  | number (value : Float)
  /-- The name of another expression. -/
  | reference (id : String)
  /-- A source text to be read in this place. -/
  | search (text : String)
  deriving DecidableEq

/-- Why a text has no tokens, or a token no text. -/
inductive LexError where
  /-- No token starts with this character, at this character of the source. -/
  | unexpectedChar (char : Char) (position : Nat)
  /-- The source has more tokens than are allowed. -/
  | tokenLimitExceeded (limit : UInt64)
  /-- This token has no spelling. -/
  | unprintable (token : Token)
  deriving DecidableEq

/-- How a token is shown. -/
def Token.describe : Token → String
  | keyword spelling => "Keyword(" ++ Text.quote spelling ++ ")"
  | identifier name => "Identifier(" ++ Text.quote name ++ ")"
  | number value => "Number(" ++ Numeral.text value ++ ")"
  | reference id => "Reference(" ++ Text.quote id ++ ")"
  | search text => "Search(" ++ Text.quote text ++ ")"

/-- The text of an error. -/
def LexError.message : LexError → String
  | unexpectedChar char position =>
      "Unexpected character " ++ Text.quoteChar char ++ " at position " ++ toString position
  | tokenLimitExceeded limit => "Token limit of " ++ toString limit.toNat ++ " exceeded"
  | unprintable token => "Token cannot be printed: " ++ token.describe

/-- The spelling of a token in a source. -/
def Token.print : Token → Except LexError String
  | keyword spelling => .ok spelling
  | identifier name => .ok name
  | number value => .ok (Numeral.text value)
  | token => .error (.unprintable token)

/-- The spellings of tokens one after another.  The first token without one refuses the text. -/
def Token.printAll (tokens : List Token) : Except LexError String := do
  let parts ← tokens.mapM Token.print
  return String.join parts

/-- Turn identifiers with a known name into references. -/
def Token.link (isKnown : String → Bool) : Token → Token
  | identifier name => if isKnown name then reference name else identifier name
  | token => token

end Tacit
