import Tacit.Inquiry
import Tacit.Keyword
import Tacit.Node
import Tacit.Symbol.Application

/-!
# Evaluation

The meaning of an expression is found from the meanings of its parts.  A group of three is an
operator between two operands, a group of two a function with its operand or with the adverb that
changes it.  A reference has the meaning of the expression it names.
-/

namespace Tacit

/-- A search for something that depends on the meanings of named expressions. -/
abbrev MeaningInquiry := Inquiry EvalError SymbolSet

/-- What evaluation works with. -/
structure Evaluator where
  /-- The vocabulary. -/
  table : KeywordTable
  /-- The expressions that references name. -/
  graph : Graph

namespace Evaluator

/-- The search for the meaning of an expression.  The operator of a group of three comes before
its operands, and a left part that is no function ends a group of two before its right part. -/
def meaning (evaluator : Evaluator) : Expr → MeaningInquiry SymbolSet
  | .keyword spelling => pure (evaluator.table.symbols spelling)
  | .number value => pure (.single (.noun (.number value)))
  | .reference id => .get id
  | .search text => .fail (.notEvaluable (Expr.search text).kind)
  | .stub categories index => .fail (.notEvaluable (Expr.stub categories index).kind)
  | .group [left, middle, right] _ => do
      let operator ← evaluator.meaning middle
      match operator.dyad, operator.conjunction with
      | some op, _ =>
          let x ← evaluator.meaning left
          let y ← evaluator.meaning right
          op.applySet x y
      | none, some conjunction =>
          let x ← evaluator.meaning left
          let y ← evaluator.meaning right
          conjunction.apply x y
      | none, none => .fail (operator.missing [.dyad, .conjunction])
  | .group [left, right] _ => do
      let operand ← evaluator.meaning left
      if operand.monad.isNone && operand.dyad.isNone then
        .fail (operand.missing [.monad, .dyad])
      else
        let argument ← evaluator.meaning right
        if argument.offers .adverb then
          let adverb ← argument.requireAdverb
          adverb.apply operand
        else
          let verb ← operand.requireMonad
          verb.apply argument
  | .group children _ => .fail (.malformed children.length)

/-- The meanings of named expressions. -/
def resolver (evaluator : Evaluator) : Resolver Expr EvalError SymbolSet where
  items := evaluator.graph
  inquiry := evaluator.meaning
  cycle := .cycle
  unknown := .unknownReference

/-- Run a search of this evaluator, given and returning what it remembers. -/
def run {α : Type} (evaluator : Evaluator) (search : MeaningInquiry α)
    (memory : Memory EvalError SymbolSet) :
    Except EvalError α × Memory EvalError SymbolSet :=
  evaluator.resolver.run search memory

end Evaluator

end Tacit
