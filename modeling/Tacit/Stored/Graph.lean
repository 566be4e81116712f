import Tacit.Node
import Tacit.Stored.Category
import Tacit.Stored.Formula

/-!
# Stored graphs

An expression is stored as an object that names its kind, and a graph as an object from names to
expressions.
-/

namespace Tacit

namespace Expr

/-- The kinds of expressions. -/
def kinds : List String := ["keyword", "number", "group", "reference", "search", "stub"]

mutual

/-- The stored form of an expression. -/
def toJson : Expr → Json
  | keyword spelling => .ofFields [("type", .ofString "keyword"), ("keyword", .ofString spelling)]
  | number value => .ofFields [("type", .ofString "number"), ("value", .ofFloat value)]
  | group children none =>
      .ofFields [("type", .ofString "group"), ("children", .array (toJsons children))]
  | group children (some categories) =>
      .ofFields [("type", .ofString "group"), ("children", .array (toJsons children)),
        ("categories", categories.toJson)]
  | reference id => .ofFields [("type", .ofString "reference"), ("reference", .ofString id)]
  | search text => .ofFields [("type", .ofString "search"), ("value", .ofString text)]
  | stub categories index =>
      .ofFields [("type", .ofString "stub"), ("categories", categories.toJson),
        ("index", .ofNat index.toNat)]

/-- The stored forms of expressions. -/
def toJsons : List Expr → List Json
  | [] => []
  | expr :: rest => expr.toJson :: toJsons rest

end

/-- The categories of a group, if it has any. -/
def groupCategories? : Option Json → Option (Option CategorySet)
  | none | some .null => some none
  | some json => (CategorySet.ofJson? Json.isVoid json).map some

/-- The expression of a kind whose parts a value stores.  `child?` reads the children of a group. -/
def ofBody? (child? : Json → Option Expr) (kind : String) (body : Json) : Option Expr := do
  match kind with
  | "keyword" =>
      match ← body.record? ["keyword"] with
      | [some spelling] => spelling.toText?.map keyword
      | _ => none
  | "number" =>
      match ← body.record? ["value"] with
      | [some value] => value.toFloat?.map number
      | _ => none
  | "group" =>
      match ← body.record? ["children", "categories"] with
      | [some children, categories] =>
          let children ← children.toList? child?
          let categories ← groupCategories? categories
          return group children categories
      | _ => none
  | "reference" =>
      match ← body.record? ["reference"] with
      | [some id] => id.toText?.map reference
      | _ => none
  | "search" =>
      match ← body.record? ["value"] with
      | [some text] => text.toText?.map search
      | _ => none
  | "stub" =>
      match ← body.record? ["categories", "index"] with
      | [some categories, index] =>
          let categories ← CategorySet.ofJson? Json.isVoid categories
          let index ← (index.map Json.toUInt64?).getD (some 0)
          return stub categories index
      | _ => none
  | _ => none

/-- The expression that a value stores within a number of levels.  Inside an expression a kind can
be given by its place. -/
def ofJsonWithin? (inside : Bool) : Nat → Json → Option Expr
  | 0, _ => none
  | levels + 1, json => do
      let (kind, body) ← json.tagged?
      let kind ← kind.kind? kinds inside
      ofBody? (ofJsonWithin? true levels) kind body

/-- The expression that a value stores inside a graph. -/
def ofJson? (json : Json) : Option Expr :=
  let depth := Json.maxDepth - 1
  if json.isReadable depth then ofJsonWithin? false depth json else none

end Expr

namespace Graph

/-- The stored form of a graph. -/
def toJson (graph : Graph) : Json :=
  .ofFields (graph.entries.map fun entry => (entry.1, entry.2.toJson))

/-- The graph that a value stores.  The last of several expressions with one name stays. -/
def ofJson? (json : Json) : Option Graph := (json.toEntries? Expr.ofJson?).map .ofList

/-- The graph that a text stores. -/
def ofText? (text : String) : Option Graph := Json.parse? text >>= ofJson?

end Graph

end Tacit
