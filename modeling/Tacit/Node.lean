import Tacit.Catalog
import Tacit.Category
import Tacit.Token

/-!
# Nodes and expressions

Grouping works on nodes, which may still hold identifiers.  Graphs keep expressions, which do not.
An expression is a node whose identifiers are all resolved: `Expr.toNode` and `Expr.ofNode` go
from one to the other and back.
-/

namespace Tacit

/-- A part of a sequence that is being grouped. -/
inductive Node where
  /-- A single token. -/
  | token (token : Token)
  /-- Neighbours in a group, with the categories of the group once they are known. -/
  | group (children : List Node) (categories : Option CategorySet)
  /-- A place for something of known categories. -/
  | stub (categories : CategorySet) (index : UInt64)

/-- A stored expression. -/
inductive Expr where
  /-- A spelling of the vocabulary. -/
  | keyword (spelling : String)
  /-- A number. -/
  | number (value : Float)
  /-- Neighbours in a group, with the categories of the group once they are known. -/
  | group (children : List Expr) (categories : Option CategorySet)
  /-- The name of another expression. -/
  | reference (id : String)
  /-- A source text to be read in this place. -/
  | search (text : String)
  /-- A place for something of known categories. -/
  | stub (categories : CategorySet) (index : UInt64)

/-- Why a sequence has no groups. -/
inductive GroupError where
  /-- This many nodes remain and no rule folds them. -/
  | incomplete (remaining : Nat)
  /-- There is nothing to fold. -/
  | empty
  /-- The categories of a name were needed to find the categories of the same name. -/
  | cycle (id : String)
  /-- No expression has this name. -/
  | unknownReference (id : String)
  /-- A name was not resolved. -/
  | unresolvedIdentifier (name : String)
  /-- A search text could not be read. -/
  | lex (error : LexError)
  deriving DecidableEq

/-- The text of an error. -/
def GroupError.message : GroupError → String
  | incomplete remaining => "Incomplete grouping: " ++ toString remaining ++ " elements remain"
  | empty => "Nothing to group"
  | cycle id => "Reference cycle through '" ++ id ++ "'"
  | unknownReference id => "Unknown reference: " ++ id
  | unresolvedIdentifier name => "Unresolved identifier: " ++ name
  | lex error => "Lex error: " ++ error.message

namespace Expr

/-- The word for the kind of an expression. -/
def kind : Expr → String
  | keyword _ => "keyword"
  | number _ => "number"
  | group _ _ => "group"
  | reference _ => "reference"
  | search _ => "search"
  | stub _ _ => "stub"

mutual

/-- An expression as a node. -/
def toNode : Expr → Node
  | keyword spelling => .token (.keyword spelling)
  | number value => .token (.number value)
  | group children categories => .group (toNodes children) categories
  | reference id => .token (.reference id)
  | search text => .token (.search text)
  | stub categories index => .stub categories index

/-- Expressions as nodes. -/
def toNodes : List Expr → List Node
  | [] => []
  | expr :: rest => expr.toNode :: toNodes rest

end

mutual

/-- A node as an expression.  The first identifier in it refuses it. -/
def ofNode : Node → Except GroupError Expr
  | .token (.keyword spelling) => .ok (keyword spelling)
  | .token (.number value) => .ok (number value)
  | .token (.reference id) => .ok (reference id)
  | .token (.search text) => .ok (search text)
  | .token (.identifier name) => .error (.unresolvedIdentifier name)
  | .group children categories => do
      let found ← ofNodes children
      return group found categories
  | .stub categories index => .ok (stub categories index)

/-- Nodes as expressions. -/
def ofNodes : List Node → Except GroupError (List Expr)
  | [] => .ok []
  | node :: rest => do
      let first ← ofNode node
      let others ← ofNodes rest
      return first :: others

end

end Expr

/-- Expressions under their names. -/
abbrev Graph := Catalog Expr

end Tacit
