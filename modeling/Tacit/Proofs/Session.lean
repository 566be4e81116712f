import Mathlib.Data.List.Forall2
import Tacit.Grouping
import Tacit.Proofs.Evaluation

/-!
# Sessions

One evaluator, or one grouper, may be asked many things, one after the other, and remembers what it
found.  Each answer is still the answer of one that has not been asked anything before.
-/

namespace Tacit

/-- A true memory stays true through searches one after another, whatever each of them is for. -/
theorem Resolver.Faithful.foldl_run {ι ε β κ : Type} {resolver : Resolver ι ε β}
    {Answer : κ → Type} (search : (query : κ) → Inquiry ε β (Answer query)) (queries : List κ)
    {memory : Memory ε β} (faithful : resolver.Faithful memory) :
    resolver.Faithful
      (queries.foldl (fun memory query => (resolver.run (search query) memory).2) memory) := by
  induction queries generalizing memory with
  | nil => exact faithful
  | cons query later ih => exact ih (run_spec (search query) faithful).2

namespace Evaluator

/-- What an evaluator can be asked. -/
inductive Query where
  /-- The meaning of a named expression. -/
  | name (id : String)
  /-- The meaning of an expression at hand. -/
  | expression (expr : Expr)

/-- The search that a query stands for. -/
def search (evaluator : Evaluator) : Query → MeaningInquiry SymbolSet
  | .name id => .get id
  | .expression expr => evaluator.meaning expr

/-- The answers to queries in order, each with what was remembered from those before it. -/
def answers (evaluator : Evaluator) :
    List Query → Memory EvalError SymbolSet → List (Except EvalError SymbolSet)
  | [], _ => []
  | query :: later, memory =>
      let (answer, remembered) := evaluator.run (evaluator.search query) memory
      answer :: evaluator.answers later remembered

/-- The answer of an evaluator that remembers nothing. -/
def freshAnswer (evaluator : Evaluator) (query : Query) : Except EvalError SymbolSet :=
  (evaluator.run (evaluator.search query) ∅).1

/-- A session that starts with a true memory answers as if each query were the first. -/
theorem answers_alike_of_faithful (evaluator : Evaluator) (queries : List Query)
    {memory : Memory EvalError SymbolSet} (faithful : evaluator.resolver.Faithful memory) :
    List.Forall₂ evaluator.resolver.Alike (evaluator.answers queries memory)
      (queries.map evaluator.freshAnswer) := by
  induction queries generalizing memory with
  | nil => exact .nil
  | cons query later ih =>
      have answered := Resolver.run_alike (evaluator.search query) faithful Resolver.faithful_empty
      have remembered := (Resolver.run_spec (evaluator.search query) faithful).2
      exact .cons answered (ih remembered)

/-- Memory and the guard against cycles do not show in any answer of a session, except in the name
that the failure of a cycle carries. -/
theorem answers_forall_alike_fresh (evaluator : Evaluator) (queries : List Query) :
    List.Forall₂ evaluator.resolver.Alike (evaluator.answers queries ∅)
      (queries.map evaluator.freshAnswer) :=
  evaluator.answers_alike_of_faithful queries Resolver.faithful_empty

/-- What an evaluator remembers after queries one after another. -/
def remembered (evaluator : Evaluator) (queries : List Query) : Memory EvalError SymbolSet :=
  queries.foldl (fun memory query => (evaluator.run (evaluator.search query) memory).2) ∅

/-- The answer to a query after earlier ones. -/
def answerAfter (evaluator : Evaluator) (earlier : List Query) (query : Query) :
    Except EvalError SymbolSet :=
  (evaluator.run (evaluator.search query) (evaluator.remembered earlier)).1

/-- Whatever was asked before, a value is answered exactly if the search settles on it. -/
theorem answerAfter_eq_ok_iff {evaluator : Evaluator} {earlier : List Query} {query : Query}
    {set : SymbolSet} :
    evaluator.answerAfter earlier query = .ok set ↔
      evaluator.resolver.Settles (evaluator.search query) (.ok set) :=
  Resolver.run_eq_ok_iff _ (Resolver.faithful_empty.foldl_run evaluator.search earlier)

/-- The expression whose meaning a query asks for. -/
def Query.expr : Query → Expr
  | .name id => .reference id
  | .expression expr => expr

theorem search_eq_meaning (evaluator : Evaluator) (query : Query) :
    evaluator.search query = evaluator.meaning query.expr := by
  cases query with
  | name id => rw [search, Query.expr, meaning]
  | expression expr => rfl

/-- Whatever was asked before, exactly the meanings by the rules are answered. -/
theorem answerAfter_eq_ok_iff_means {evaluator : Evaluator} {earlier : List Query} {query : Query}
    {set : SymbolSet} :
    evaluator.answerAfter earlier query = .ok set ↔ evaluator.Means query.expr set := by
  rw [answerAfter_eq_ok_iff, search_eq_meaning, means_iff_settles]

end Evaluator

namespace Grouper

/-- What a grouper can be asked. -/
inductive Query where
  /-- What remains of a sequence once no rule fits. -/
  | reduction (nodes : List Node)
  /-- The one node that remains of a sequence. -/
  | reductionToOne (nodes : List Node)
  /-- The categories of a node. -/
  | categories (node : Node)

/-- What a query asks for. -/
abbrev Query.Answer : Query → Type
  | .reduction _ => List Node
  | .reductionToOne _ => Node
  | .categories _ => CategorySet

/-- The search that a query stands for. -/
def search (grouper : Grouper) : (query : Query) → CategoryInquiry query.Answer
  | .reduction nodes => grouper.reduction nodes
  | .reductionToOne nodes => grouper.reductionToOne nodes
  | .categories node => grouper.nodeCategories node

/-- What a grouper remembers after queries one after another. -/
def remembered (grouper : Grouper) (queries : List Query) : Memory GroupError CategorySet :=
  queries.foldl (fun memory query => (grouper.run (grouper.search query) memory).2) ∅

/-- The answer to a query after earlier ones. -/
def answerAfter (grouper : Grouper) (earlier : List Query) (query : Query) :
    Except GroupError query.Answer :=
  (grouper.run (grouper.search query) (grouper.remembered earlier)).1

/-- Whatever a grouper was asked before, and whatever came of it, it answers as if nothing had been
asked.  Only the name that the failure of a cycle carries may be another. -/
theorem answerAfter_alike_fresh (grouper : Grouper) (earlier : List Query) (query : Query) :
    grouper.resolver.Alike (grouper.answerAfter earlier query) (grouper.answerAfter [] query) := by
  have faithful : grouper.resolver.Faithful (grouper.remembered earlier) :=
    Resolver.faithful_empty.foldl_run grouper.search earlier
  exact Resolver.run_alike (grouper.search query) faithful Resolver.faithful_empty

end Grouper

end Tacit
