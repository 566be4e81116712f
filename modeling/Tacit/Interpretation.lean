import Tacit.Error
import Tacit.Evaluation

/-!
# Interpretations

An interpretation accounts for every name of a graph: its value with the formula behind it, or
that it has no value, or why it failed.  A name that fails does not disturb the others.
-/

namespace Tacit

/-- What became of each name. -/
@[ext]
structure Interpretation where
  /-- The value of each name, if it has one. -/
  results : Catalog (Option Float) := ∅
  /-- The formula behind each value. -/
  diagnostics : Catalog String := ∅
  /-- The names that failed, and why. -/
  failures : Catalog Error := ∅

/-- What became of one name. -/
inductive Outcome where
  /-- A value, with the text of its formula. -/
  | value (result : Float) (formula : String)
  /-- A meaning that is no value. -/
  | absent
  /-- A failure. -/
  | failed (error : Error)

namespace Interpretation

instance : EmptyCollection Interpretation := ⟨{}⟩

/-- The value of a name. -/
def value? (interpretation : Interpretation) (id : String) : Option Float :=
  (interpretation.results.get? id).join

/-- Note that a name failed. -/
def recordFailure (interpretation : Interpretation) (id : String) (error : Error) :
    Interpretation :=
  { interpretation with
    results := interpretation.results.insert id none
    failures := interpretation.failures.insert id error }

/-- Note what became of a name. -/
def record (interpretation : Interpretation) (id : String) : Outcome → Interpretation
  | .value result formula =>
      { interpretation with
        results := interpretation.results.insert id (some result)
        diagnostics := interpretation.diagnostics.insert id formula }
  | .absent => { interpretation with results := interpretation.results.insert id none }
  | .failed error => interpretation.recordFailure id error

/-- Enter all that another interpretation says over what this one says. -/
def merge (interpretation newer : Interpretation) : Interpretation where
  results := interpretation.results.merge newer.results
  diagnostics := interpretation.diagnostics.merge newer.diagnostics
  failures := interpretation.failures.merge newer.failures

end Interpretation

/-- How formulas are turned into values. -/
abbrev Execution := Formula → Except ExecutionError Float

/-- What becomes of a name with this meaning. -/
def Outcome.ofMeaning (execute : Execution) : Except EvalError SymbolSet → Outcome
  | .error error => .failed (.eval error)
  | .ok meaning =>
      match meaning.noun with
      | none => .absent
      | some formula =>
          match execute formula with
          | .ok result => .value result formula.render
          | .error error => .failed (.eval (.execution error))

namespace Evaluator

/-- Note what becomes of one name, and remember the meanings found on the way. -/
def interpretOne (evaluator : Evaluator) (execute : Execution)
    (state : Interpretation × Memory EvalError SymbolSet) (id : String) :
    Interpretation × Memory EvalError SymbolSet :=
  let (meaning, memory) := evaluator.run (.get id) state.2
  (state.1.record id (.ofMeaning execute meaning), memory)

/-- What becomes of every name, taken in order. -/
def interpret (evaluator : Evaluator) (execute : Execution) : Interpretation :=
  (evaluator.graph.names.foldl (evaluator.interpretOne execute) (∅, ∅)).1

end Evaluator

end Tacit
