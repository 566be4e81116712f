import Tacit.Evaluation
import Tacit.Grouping
import Tacit.Proofs.Reduction
import Tacit.Proofs.Seeking

/-!
# Searches without bounds

The searches of groupers and evaluators once more, as plain recursion: a search goes on as long as
it has something to read, to look up, to fold or to apply, and keeps a list of the names it is busy
with.  Nothing about it shows that it ends.  The limit of each function is the depth at which it is
cut off; it plays no other part.
-/

namespace Tacit

namespace Lexer

/-- The spans of an input, with each lexeme cut off as it was read. -/
def seekSpans (lexer : Lexer) :
    Nat → (count start position : Nat) → List Char → Limited LexError (List Span)
  | 0, _, _, _, _ => .cut
  | _ + 1, _, _, _, [] => return []
  | limit + 1, count, start, position, first :: rest =>
      if lexer.limit.toNat ≤ count then throw (.tokenLimitExceeded lexer.limit)
      else match lexer.read? (first :: rest) with
        | none => throw (.unexpectedChar first position)
        | some (token, lexeme) => do
            let stop := start + byteSize lexeme
            let later ← lexer.seekSpans limit (count + 1) stop (position + lexeme.length)
              ((first :: rest).drop lexeme.length)
            return ⟨token, start, stop⟩ :: later

/-- The tokens of a source. -/
def seekTokens (lexer : Lexer) (limit : Nat) (source : String) :
    Limited LexError (List Token) := do
  let found ← lexer.seekSpans limit 0 0 0 source.toList
  return found.map Span.token

/-- A sequence with the tokens of search texts in the stead of the texts. -/
def seekExpansion (lexer : Lexer) (limit : Nat) : List Node → Limited GroupError (List Node)
  | [] => return []
  | .token (.search text) :: rest => do
      let found ← (lexer.seekTokens limit text).adapt .lex
      let others ← lexer.seekExpansion limit rest
      return found.map .token ++ others
  | node :: rest => do
      let others ← lexer.seekExpansion limit rest
      return node :: others

end Lexer

namespace Grouper

/-- A search for the categories of nodes. -/
abbrev Look := Node → Seeking GroupError CategorySet CategorySet

/-- The categories of a node, unless this round has found them already. -/
def seekOffered (look : Look) (node : Node) :
    Option CategorySet → Seeking GroupError CategorySet CategorySet
  | some known => return known
  | none => look node

/-- Whether the first nodes offer the categories of a pattern. -/
def seekFit (look : Look) : List Category → List (Node × Option CategorySet) →
    Seeking GroupError CategorySet (Bool × List (Node × Option CategorySet))
  | [], seen => return (true, seen)
  | _ :: _, [] => return (false, [])
  | category :: pattern, (node, known?) :: rest => do
      let offered ← seekOffered look node known?
      if category ∈ offered then
        let (fits, rest) ← seekFit look pattern rest
        return (fits, (node, some offered) :: rest)
      else return (false, (node, some offered) :: rest)

/-- The first rule that fits the first nodes, with the categories that were found in this round. -/
def seekRule (look : Look) : List Rule → List (Node × Option CategorySet) →
    Seeking GroupError CategorySet (Option Rule)
  | [], _ => return none
  | rule :: rules, seen =>
      if rule.pattern.length < 2 || seen.length < rule.pattern.length then
        seekRule look rules seen
      else do
        let (fits, seen) ← seekFit look rule.pattern seen
        if fits then return some rule else seekRule look rules seen

/-- Fold until no rule fits or one node remains.  Each round looks all categories up anew. -/
def seekFolds (look : Look) (rules : List Rule) :
    Nat → List Node → Seeking GroupError CategorySet (List Node)
  | 0, _ => .cut
  | limit + 1, nodes => do
      match ← seekRule look rules (nodes.map fun node => (node, none)) with
      | none => return nodes
      | some rule =>
          if (rule.foldFront nodes).length = 1 then return rule.foldFront nodes
          else seekFolds look rules limit (rule.foldFront nodes)

/-- What remains of a sequence, with a search for the categories of its nodes. -/
def seekRemains (grouper : Grouper) (look : Look) (limit : Nat) (nodes : List Node) :
    Seeking GroupError CategorySet (List Node) := do
  let expanded ← Seeking.lift (grouper.lexer.seekExpansion limit nodes)
  seekFolds look grouper.rules limit expanded

/-- The categories of a node, while the busy names are being worked on. -/
def seekCategories (grouper : Grouper) :
    Nat → List String → Node → Seeking GroupError CategorySet CategorySet
  | 0, _, _ => .cut
  | _ + 1, _, .token (.keyword spelling) => return grouper.lexer.table.categories spelling
  | _ + 1, _, .token (.number _) => return {.noun}
  | limit + 1, busy, .token (.reference id) =>
      grouper.resolver.lookUp busy id fun expr =>
        grouper.seekCategories limit (id :: busy) expr.toNode
  | _ + 1, _, .token (.identifier _) => return ∅
  | _ + 1, _, .token (.search _) => return ∅
  | _ + 1, _, .group _ (some categories) => return categories
  | limit + 1, busy, .group children none => do
      let reduced ← grouper.seekRemains (grouper.seekCategories limit busy) limit children
      match reduced with
      | [] => return ∅
      | first :: _ => grouper.seekCategories limit busy first
  | _ + 1, _, .stub categories _ => return categories

/-- What remains of a sequence, while the busy names are being worked on. -/
def seekReduction (grouper : Grouper) (limit : Nat) (busy : List String) (nodes : List Node) :
    Seeking GroupError CategorySet (List Node) :=
  grouper.seekRemains (grouper.seekCategories limit busy) limit nodes

end Grouper

/-- The formula that one side of a train makes of an operand, with its function applied. -/
def Side.seek (apply : Verb → Limited EvalError SymbolSet) : Side → Limited EvalError Formula
  | .verb inner => do
      let result ← apply inner
      result.requireNoun
  | .fixed formula => return formula
  | .missing error => throw error

/-- The result of a function on an operand. -/
def Verb.seek : Nat → Verb → SymbolSet → Limited EvalError SymbolSet
  | 0, _, _ => .cut
  | _ + 1, .identity, operand => return operand
  | _ + 1, .unary op, operand => op.applySet operand
  | limit + 1, .sequence first next, operand => do
      let between ← Verb.seek limit first operand
      Verb.seek limit next between
  | limit + 1, .train op left right, operand => do
      let leftFormula ← left.seek fun verb => Verb.seek limit verb operand
      let rightFormula ← right.seek fun verb => Verb.seek limit verb operand
      return .single (.noun (.binary op leftFormula rightFormula))
  | _ + 1, .reflexive op, operand => op.applySet operand operand

/-- The result of a conjunction. -/
def Conjunction.seek (limit : Nat) :
    Conjunction → (left right : SymbolSet) → Limited EvalError SymbolSet
  | .pipeline, left, right =>
      match left.noun, right.monad with
      | some _, some next => next.seek limit left
      | _, _ => do
          let first ← left.requireMonad
          let next ← right.requireMonad
          return .single (.monad (.sequence first next))

namespace Evaluator

/-- The meaning of an expression, while the busy names are being worked on. -/
def seekMeaning (evaluator : Evaluator) :
    Nat → List String → Expr → Seeking EvalError SymbolSet SymbolSet
  | 0, _, _ => .cut
  | _ + 1, _, .keyword spelling => return evaluator.table.symbols spelling
  | _ + 1, _, .number value => return .single (.noun (.number value))
  | limit + 1, busy, .reference id =>
      evaluator.resolver.lookUp busy id fun expr => evaluator.seekMeaning limit (id :: busy) expr
  | _ + 1, _, .search text => throw (.notEvaluable (Expr.search text).kind)
  | _ + 1, _, .stub categories index => throw (.notEvaluable (Expr.stub categories index).kind)
  | limit + 1, busy, .group [left, middle, right] _ => do
      let operator ← evaluator.seekMeaning limit busy middle
      match operator.dyad, operator.conjunction with
      | some op, _ =>
          let x ← evaluator.seekMeaning limit busy left
          let y ← evaluator.seekMeaning limit busy right
          op.applySet x y
      | none, some conjunction =>
          let x ← evaluator.seekMeaning limit busy left
          let y ← evaluator.seekMeaning limit busy right
          Seeking.lift (conjunction.seek limit x y)
      | none, none => throw (operator.missing [.dyad, .conjunction])
  | limit + 1, busy, .group [left, right] _ => do
      let operand ← evaluator.seekMeaning limit busy left
      if operand.monad.isNone && operand.dyad.isNone then
        throw (operand.missing [.monad, .dyad])
      else
        let argument ← evaluator.seekMeaning limit busy right
        if argument.offers .adverb then
          let adverb ← argument.requireAdverb
          adverb.apply operand
        else
          let verb ← operand.requireMonad
          Seeking.lift (verb.seek limit argument)
  | _ + 1, _, .group children _ => throw (.malformed children.length)

/-- The meaning of a name. -/
def seekNamed (evaluator : Evaluator) (limit : Nat) (id : String) :
    Seeking EvalError SymbolSet SymbolSet :=
  evaluator.resolver.lookUp [] id fun expr => evaluator.seekMeaning limit [id] expr

end Evaluator

end Tacit
