import Tacit.Formula
import Tacit.Json.Reader
import Tacit.Json.Writer

/-!
# Stored formulas

A formula is stored as an object that names its kind, with its parts inside it.
-/

namespace Tacit

/-- The kind that a value names, out of a list of kinds.  `byPlace` says whether the place in the
list serves as well as the name. -/
def Json.kind? (kinds : List String) (byPlace : Bool) : Json → Option String
  | .string (some name) => if name ∈ kinds then some name else none
  | .number numeral => do
      let place ← (Json.number numeral).toUInt64?
      if byPlace then kinds[place.toNat]? else none
  | _ => none

namespace Formula

/-- The stored form of a formula. -/
def toJson : Formula → Json
  | number value => .ofFields [("type", .ofString "number"), ("value", .ofFloat value)]
  | unary op operand =>
      .ofFields [("type", .ofString "unary"), ("op", .ofString op.name),
        ("operand", operand.toJson)]
  | binary op left right =>
      .ofFields [("type", .ofString "binary"), ("op", .ofString op.name),
        ("left", left.toJson), ("right", right.toJson)]

/-- The formula that a value stores within a number of levels.  Inside a formula a kind can be
given by its place. -/
def ofJsonWithin? (inside : Bool) : Nat → Json → Option Formula
  | 0, _ => none
  | levels + 1, json => do
      let (kind, body) ← json.tagged?
      match ← kind.kind? ["number", "unary", "binary"] inside with
      | "number" =>
          match ← body.record? ["value"] with
          | [some value] => value.toFloat?.map number
          | _ => none
      | "unary" =>
          match ← body.record? ["op", "operand"] with
          | [some op, some operand] =>
              let op ← op.word? Json.isVoid >>= UnaryOp.ofName?
              let operand ← ofJsonWithin? true levels operand
              return unary op operand
          | _ => none
      | "binary" =>
          match ← body.record? ["op", "left", "right"] with
          | [some op, some left, some right] =>
              let op ← op.word? Json.isVoid >>= BinaryOp.ofName?
              let left ← ofJsonWithin? true levels left
              let right ← ofJsonWithin? true levels right
              return binary op left right
          | _ => none
      | _ => none

/-- The formula that a value stores. -/
def ofJson? (json : Json) : Option Formula :=
  if json.isReadable Json.maxDepth then ofJsonWithin? false Json.maxDepth json else none

/-- The formula that a text stores. -/
def ofText? (text : String) : Option Formula := Json.parse? text >>= ofJson?

end Formula

end Tacit
