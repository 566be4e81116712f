import Tacit.Category
import Tacit.Json.Reader
import Tacit.Json.Writer

/-!
# Stored categories

A category is stored as its name, a set as the list of its members.
-/

namespace Tacit

/-- The stored form of a category. -/
def Category.toJson (category : Category) : Json := .ofString category.name

/-- The category that a value stores.  `isNothing` tells what may stand under its name. -/
def Category.ofJson? (isNothing : Json → Bool) (json : Json) : Option Category :=
  json.word? isNothing >>= ofName?

/-- The stored form of a set. -/
def CategorySet.toJson (set : CategorySet) : Json := .array (set.toList.map Category.toJson)

/-- The set that a value stores. -/
def CategorySet.ofJson? (isNothing : Json → Bool) (json : Json) : Option CategorySet :=
  (json.toList? (Category.ofJson? isNothing)).map ofList

/-- The set that a text stores. -/
def CategorySet.ofText? (text : String) : Option CategorySet :=
  Json.parse? text >>= CategorySet.ofJson? Json.isNull

end Tacit
