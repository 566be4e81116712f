import Tacit.Json.Reader
import Tacit.Json.Writer
import Tacit.Token

/-!
# Stored tokens

A token is stored as a record of its kind and its content.
-/

namespace Tacit.Token

/-- The record of a kind and a content. -/
def tag (kind : String) (value : Json) : Json :=
  .ofFields [("type", .ofString kind), ("value", value)]

/-- The stored form of a token. -/
def toJson : Token → Json
  | keyword spelling => tag "keyword" (.ofString spelling)
  | identifier name => tag "identifier" (.ofString name)
  | number value => tag "number" (.ofFloat value)
  | reference id => tag "reference" (.ofString id)
  | search text => tag "search" (.ofString text)

/-- The kind and the content in a record.  An object may give its kind in any form of a word, an
array only as a text. -/
def parts? (json : Json) : Option (String × Json) := do
  match json, ← json.record? ["type", "value"] with
  | .array _, [some kind, some value] => kind.toText?.map fun name => (name, value)
  | _, [some kind, some value] => (kind.word? Json.isNull).map fun name => (name, value)
  | _, _ => none

/-- The token that a value stores. -/
def ofJson? (json : Json) : Option Token := do
  let (kind, value) ← parts? json
  match kind with
  | "keyword" => value.toText?.map keyword
  | "identifier" => value.toText?.map identifier
  | "number" => value.toFloat?.map number
  | "reference" => value.toText?.map reference
  | "search" => value.toText?.map search
  | _ => none

/-- The stored form of a list of tokens. -/
def listToJson (tokens : List Token) : Json := .array (tokens.map toJson)

/-- The tokens that a text stores. -/
def listOfText? (text : String) : Option (List Token) := Json.parse? text >>= Json.toList? ofJson?

end Tacit.Token
