import Tacit.Inquiry
import Tacit.Node
import Tacit.Rule
import Tacit.Token.Lexer

/-!
# Grouping

A sequence of nodes is folded from its front: the first rule whose pattern fits the first nodes
turns them into one group, and this repeats until no rule fits.  An early fold is final.  Which
categories a node offers is looked up only when a rule needs to know, and may need the categories
of named expressions.
-/

namespace Tacit

/-- What grouping works with. -/
structure Grouper where
  /-- The vocabulary. -/
  lexer : Lexer
  /-- The rules, in the order in which they are tried. -/
  rules : List Rule
  /-- The expressions that references name. -/
  graph : Graph

/-- A search for something that depends on the categories of named expressions. -/
abbrev CategoryInquiry := Inquiry GroupError CategorySet

/-- A node with the search for its categories. -/
structure Reading where
  /-- The node. -/
  node : Node
  /-- The search for its categories. -/
  categories : CategoryInquiry CategorySet

namespace Reading

/-- The reading of a node whose categories are known. -/
def settled (node : Node) (categories : CategorySet) : Reading := ⟨node, pure categories⟩

/-- Whether the first readings offer the categories of a pattern.  They are asked in order up to
the first that does not; those asked come back settled. -/
def fit : List Category → List Reading → CategoryInquiry (Bool × List Reading)
  | [], readings => pure (true, readings)
  | _ :: _, [] => pure (false, [])
  | category :: pattern, reading :: readings => do
      let offered ← reading.categories
      let known := settled reading.node offered
      if category ∈ offered then
        let (fits, rest) ← fit pattern readings
        return (fits, known :: rest)
      else return (false, known :: readings)

/-- The first rule that fits the first readings.  A rule for fewer than two nodes, or for more
than there are, is passed over. -/
def firstRule : List Rule → List Reading → CategoryInquiry (Option Rule × List Reading)
  | [], readings => pure (none, readings)
  | rule :: rules, readings =>
      if rule.pattern.length < 2 || readings.length < rule.pattern.length then
        firstRule rules readings
      else do
        let (fits, readings) ← fit rule.pattern readings
        if fits then return (some rule, readings) else firstRule rules readings

/-- Turn the first readings into the group that a rule makes of them. -/
def fold (rule : Rule) (readings : List Reading) : List Reading :=
  let (front, rest) := readings.splitAt rule.pattern.length
  settled (.group (front.map Reading.node) (some rule.result)) rule.result :: rest

/-- Fold at most `steps` times. -/
def foldFor (rules : List Rule) : Nat → List Reading → CategoryInquiry (List Reading)
  | 0, readings => pure readings
  | steps + 1, readings => do
      let (rule?, readings) ← firstRule rules readings
      match rule? with
      | none => return readings
      | some rule => foldFor rules steps (fold rule readings)

/-- Fold until no rule fits.  Every fold leaves fewer readings, so their number bounds the
folds. -/
def foldAll (rules : List Rule) (readings : List Reading) : CategoryInquiry (List Reading) :=
  foldFor rules readings.length readings

end Reading

namespace Grouper

/-- The categories of a token in its own right. -/
def tokenCategories (grouper : Grouper) : Token → CategoryInquiry CategorySet
  | .keyword spelling => pure (grouper.lexer.table.categories spelling)
  | .number _ => pure {.noun}
  | .reference id => .get id
  | .identifier _ | .search _ => pure ∅

/-- The tokens of a search text, each ready to be read. -/
def searchReadings (grouper : Grouper) (text : String) : Except GroupError (List Reading) :=
  match grouper.lexer.tokens text with
  | .ok tokens => .ok (tokens.map fun token => ⟨.token token, grouper.tokenCategories token⟩)
  | .error error => .error (.lex error)

mutual

/-- The search for the categories of a node.  A group without known categories has those of the
first node that remains of it. -/
def nodeCategories (grouper : Grouper) : Node → CategoryInquiry CategorySet
  | .token token => grouper.tokenCategories token
  | .group _ (some categories) => pure categories
  | .group children none => do
      let readings ← grouper.readings children
      let folded ← Reading.foldAll grouper.rules readings
      match folded with
      | [] => return ∅
      | first :: _ => first.categories
  | .stub categories _ => pure categories

/-- Nodes ready to be read, with the tokens of search texts in the stead of the texts. -/
def readings (grouper : Grouper) : List Node → Except GroupError (List Reading)
  | [] => .ok []
  | .token (.search text) :: rest => do
      let found ← grouper.searchReadings text
      let others ← grouper.readings rest
      return found ++ others
  | node :: rest => do
      let others ← grouper.readings rest
      return ⟨node, grouper.nodeCategories node⟩ :: others

end

/-- The search for what remains of a sequence once no rule fits. -/
def reduction (grouper : Grouper) (nodes : List Node) : CategoryInquiry (List Node) := do
  let readings ← grouper.readings nodes
  let folded ← Reading.foldAll grouper.rules readings
  return folded.map Reading.node

/-- The one node that remains of a sequence. -/
def theOne : List Node → Except GroupError Node
  | [] => .error .empty
  | [node] => .ok node
  | nodes => .error (.incomplete nodes.length)

/-- The search for the one node that remains of a sequence. -/
def reductionToOne (grouper : Grouper) (nodes : List Node) : CategoryInquiry Node := do
  let reduced ← grouper.reduction nodes
  theOne reduced

/-- The categories of named expressions. -/
def resolver (grouper : Grouper) : Resolver Expr GroupError CategorySet where
  items := grouper.graph
  inquiry expr := grouper.nodeCategories expr.toNode
  cycle := .cycle
  unknown := .unknownReference

/-- Run a search of this grouper, given and returning what it remembers. -/
def run {α : Type} (grouper : Grouper) (search : CategoryInquiry α)
    (memory : Memory GroupError CategorySet) :
    Except GroupError α × Memory GroupError CategorySet :=
  grouper.resolver.run search memory

end Grouper

end Tacit
