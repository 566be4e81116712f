import Tacit.Keyword.Standard
import Tacit.Proofs.Session

/-!
# Values and functions never mix

An operator between two operands may look for a function first, as arithmetic does, or for a value
first, as a pipeline does.  It makes no difference: a meaning is one value and nothing else, or no
value at all.  Functions keep to this, because they take values to values and what is no value to
what is no value.
-/

namespace Tacit

/-- One value and nothing else, or no value at all. -/
def SymbolSet.Unmixed (set : SymbolSet) : Prop := set.IsNoun ∨ set.noun = none

section Operations

variable {left right operand result : SymbolSet}

theorem SymbolSet.unmixed_noun (formula : Formula) :
    (SymbolSet.single (.noun formula)).Unmixed :=
  .inl ⟨formula, rfl⟩

theorem SymbolSet.unmixed_monad (verb : Verb) : (SymbolSet.single (.monad verb)).Unmixed :=
  .inr rfl

theorem SymbolSet.Unmixed.isNoun (unmixed : operand.Unmixed) {formula : Formula}
    (present : operand.noun = some formula) : operand.IsNoun := by
  obtain value | absent := unmixed
  · exact value
  · rw [absent] at present
    contradiction

theorem Verb.apply_unmixed {verb : Verb} (proper : verb.Proper) (unmixed : operand.Unmixed)
    (applied : verb.apply operand = .ok result) : result.Unmixed :=
  unmixed.imp (fun value => apply_isNoun value applied)
    fun absent => apply_noun_none proper absent applied

theorem BinaryOp.applySet_unmixed {op : BinaryOp} (applied : op.applySet left right = .ok result) :
    result.Unmixed := by
  obtain ⟨_, rfl⟩ | ⟨_, _, x, y, _, _, rfl⟩ := applySet_cases applied
  · exact SymbolSet.unmixed_monad _
  · exact SymbolSet.unmixed_noun _

theorem Conjunction.apply_unmixed {conjunction : Conjunction} (unmixed : left.Unmixed)
    (applied : conjunction.apply left right = .ok result) : result.Unmixed := by
  obtain ⟨formula, next, leftNoun, _, fed⟩ | ⟨_, first, next, _, _, rfl⟩ := apply_cases applied
  · exact .inl (Verb.apply_isNoun (unmixed.isNoun leftNoun) fed)
  · exact SymbolSet.unmixed_monad _

theorem SymbolSet.between_unmixed {operator : SymbolSet} (unmixed : left.Unmixed)
    (joined : operator.between left right = .ok result) : result.Unmixed := by
  obtain ⟨op, _, applied⟩ | ⟨_, conjunction, _, applied⟩ := between_cases joined
  · exact BinaryOp.applySet_unmixed applied
  · exact Conjunction.apply_unmixed unmixed applied

theorem SymbolSet.beside_unmixed (proper : left.Proper) (unmixed : right.Unmixed)
    (applied : left.beside right = .ok result) : result.Unmixed := by
  obtain ⟨_, adverb, _, changed⟩ | ⟨_, verb, found, taken⟩ := beside_cases applied
  · obtain ⟨op, _, rfl⟩ := Adverb.apply_cases changed
    exact SymbolSet.unmixed_monad _
  · exact Verb.apply_unmixed (proper verb found) unmixed taken

end Operations

section Readings

variable {set right : SymbolSet} {verb next : Verb} {formula : Formula}

/-- An unmixed set with a function has no value. -/
theorem SymbolSet.Unmixed.noun_eq_none (unmixed : set.Unmixed) (function : set.monad = some verb) :
    set.noun = none := by
  obtain ⟨formula, rfl⟩ | absent := unmixed
  · cases function
  · exact absent

theorem Side.monad_of_ofSet (deferred : Side.ofSet set = .verb verb) : set.monad = some verb := by
  rw [ofSet] at deferred
  split at deferred
  next function found =>
    cases deferred
    exact found
  next => split at deferred <;> contradiction

theorem Side.noun_of_ofSet (constant : Side.ofSet set = .fixed formula) :
    set.noun = some formula := by
  rw [ofSet] at constant
  split at constant
  next => contradiction
  next =>
    split at constant
    next value required =>
      cases constant
      exact SymbolSet.requireNoun_eq_ok_iff.mp required
    next => contradiction

theorem Conjunction.pipeline_of_noun (value : set.noun = some formula)
    (following : right.monad = some next) :
    Conjunction.pipeline.apply set right = next.apply set := by
  rw [apply, value, following]

theorem Conjunction.pipeline_of_monad (noValue : set.noun = none)
    (function : set.monad = some verb) (following : right.monad = some next) :
    Conjunction.pipeline.apply set right = .ok (.single (.monad (.sequence verb next))) := by
  rw [apply, noValue, SymbolSet.requireMonad_eq_ok_iff.mpr function,
    SymbolSet.requireMonad_eq_ok_iff.mpr following]
  rfl

end Readings

namespace Evaluator

variable {evaluator : Evaluator} {expr : Expr} {set : SymbolSet}

/-- No meaning mixes a value with anything else. -/
theorem Means.unmixed (means : evaluator.Means expr set) : set.Unmixed := by
  induction means with
  | keyword spelling => exact .inr (evaluator.table.symbols_noun spelling)
  | number value => exact SymbolSet.unmixed_noun _
  | reference found named ih => exact ih
  | triple operates leftMeans rightMeans joined operatesIh leftIh rightIh =>
      exact SymbolSet.between_unmixed leftIh joined
  | pair leftMeans rightMeans applied leftIh rightIh =>
      exact SymbolSet.beside_unmixed leftMeans.proper rightIh applied

/-- Whatever an evaluator answers is one value and nothing else, or no value at all.  A function in
it takes one value to one value, and what is no value never to a value.  So a train, which looks
for a function first, and a pipeline, which looks for a value first, read the answer alike: what
is a constant to one is handed on at once by the other, what is a function to one is put in
sequence by the other. -/
theorem answer_never_mixes (evaluator : Evaluator) (earlier : List Query) (query : Query)
    {set : SymbolSet} (answered : evaluator.answerAfter earlier query = .ok set) :
    (set.IsNoun ∨ set.noun = none) ∧
      (∀ verb, set.monad = some verb → ∀ operand result, verb.apply operand = .ok result →
        (operand.IsNoun → result.IsNoun) ∧ (operand.noun = none → result.noun = none)) ∧
      ∀ right next, right.monad = some next →
        (∀ formula, Side.ofSet set = .fixed formula →
          Conjunction.pipeline.apply set right = next.apply set) ∧
        ∀ verb, Side.ofSet set = .verb verb →
          Conjunction.pipeline.apply set right = .ok (.single (.monad (.sequence verb next))) := by
  have means := answerAfter_eq_ok_iff_means.mp answered
  refine ⟨means.unmixed, fun verb found operand result applied => ⟨?_, ?_⟩,
    fun right next following => ⟨fun formula constant => ?_, fun verb deferred => ?_⟩⟩
  · intro value
    exact Verb.apply_isNoun value applied
  · intro noValue
    exact Verb.apply_noun_none (means.proper verb found) noValue applied
  · exact Conjunction.pipeline_of_noun (Side.noun_of_ofSet constant) following
  · have function := Side.monad_of_ofSet deferred
    exact Conjunction.pipeline_of_monad (means.unmixed.noun_eq_none function) function following

/-- The function `- + #` takes values to values and makes no value of anything else, and a pipeline
from it to itself is a sequence. -/
theorem negatePlusSelf_never_mixes :
    (Evaluator.mk .standard ∅).answerAfter [.name "absent"] (.expression .negatePlusSelf) =
      .ok (.single (.monad .negatePlusSelf)) ∧
      (∀ operand result, Verb.negatePlusSelf.apply operand = .ok result →
        (operand.IsNoun → result.IsNoun) ∧ (operand.noun = none → result.noun = none)) ∧
      Conjunction.pipeline.apply (.single (.monad .negatePlusSelf))
          (.single (.monad .negatePlusSelf)) =
        .ok (.single (.monad (.sequence .negatePlusSelf .negatePlusSelf))) := by
  have answered : (Evaluator.mk .standard ∅).answerAfter [.name "absent"]
      (.expression .negatePlusSelf) = _ := answerAfter_eq_ok_iff_means.mpr (means_negatePlusSelf ∅)
  obtain ⟨_, kept, alike⟩ := answer_never_mixes _ _ _ answered
  exact ⟨answered, kept _ rfl, (alike _ _ rfl).2 _ rfl⟩

end Evaluator

end Tacit
