import Tacit.Keyword.Standard
import Tacit.Proofs.Session

/-!
# A function of a function is their composition

Given a function instead of a value, a function gives a function.  Whichever way it does so, by
putting itself after the other or by making a train of it, the result takes a value to what the
outer function makes of what the inner function makes of the value.  Trains themselves refuse, for
they take values only.
-/

namespace Tacit

/-- A value, with no function beside it. -/
structure SymbolSet.IsValue (set : SymbolSet) : Prop where
  noun : ∃ formula, set.noun = some formula
  monad : set.monad = none

theorem SymbolSet.isValue_noun (formula : Formula) :
    (SymbolSet.single (.noun formula)).IsValue :=
  ⟨⟨formula, rfl⟩, rfl⟩

/-- Arithmetic on a value and itself gives a formula at once. -/
theorem BinaryOp.applySet_self {op : BinaryOp} {value : SymbolSet} {formula : Formula}
    (noun : value.noun = some formula) (monad : value.monad = none) :
    op.applySet value value = .ok (.single (.noun (.binary op formula formula))) := by
  rw [applySet, monad, SymbolSet.requireNoun_eq_ok_iff.mpr noun]
  rfl

namespace Verb

/-- Whether no train stands among the functions that are done one after the other. -/
def isTrainFree : Verb → Bool
  | .identity | .unary _ | .reflexive _ => true
  | .sequence first next => first.isTrainFree && next.isTrainFree
  | .train _ _ _ => false

section Applying

variable {outer inner : Verb} {operand result value : SymbolSet}

/-- A function takes a value to a value. -/
theorem apply_isValue (isValue : operand.IsValue) (applied : outer.apply operand = .ok result) :
    result.IsValue := by
  induction outer using Verb.nestedInduction generalizing operand result with
  | identity =>
      rw [apply, Except.ok.injEq] at applied
      exact applied ▸ isValue
  | unary op =>
      rw [apply] at applied
      obtain ⟨formula, _, rfl⟩ | ⟨absent, _⟩ := UnaryOp.applySet_cases applied
      · exact SymbolSet.isValue_noun _
      · obtain ⟨formula, present⟩ := isValue.noun
        rw [absent] at present
        contradiction
  | sequence first next firstIh nextIh =>
      obtain ⟨between, firstApplied, nextApplied⟩ := apply_sequence applied
      exact nextIh (firstIh isValue firstApplied) nextApplied
  | train op left right leftIh rightIh =>
      obtain ⟨x, y, _, _, rfl⟩ := apply_train applied
      exact SymbolSet.isValue_noun _
  | reflexive op =>
      obtain ⟨formula, present⟩ := isValue.noun
      rw [apply, BinaryOp.applySet_self present isValue.monad] at applied
      cases applied
      exact SymbolSet.isValue_noun _

/-- A train of a function with itself does the arithmetic on what the function makes of a value and
itself. -/
theorem apply_train_self (op : BinaryOp) (isValue : value.IsValue) :
    (Verb.train op (.verb inner) (.verb inner)).apply value =
      inner.apply value >>= (Verb.reflexive op).apply := by
  rw [apply, Side.formula]
  cases applied : inner.apply value with
  | error error => rfl
  | ok between =>
      have isValueToo := apply_isValue isValue applied
      obtain ⟨formula, present⟩ := isValueToo.noun
      change (between.requireNoun >>= fun x => between.requireNoun >>= fun y => _) =
        op.applySet between between
      rw [BinaryOp.applySet_self present isValueToo.monad,
        SymbolSet.requireNoun_eq_ok_iff.mpr present]
      rfl

/-- A proper function takes a function only to the composition of the two. -/
theorem apply_composes (proper : outer.Proper) (noValue : operand.noun = none)
    (function : operand.monad = some inner) (applied : outer.apply operand = .ok result) :
    ∃ composed, result.monad = some composed ∧
      ∀ value : SymbolSet, value.IsValue →
        composed.apply value = inner.apply value >>= outer.apply := by
  induction outer using Verb.nestedInduction generalizing operand inner result with
  | identity =>
      rw [apply, Except.ok.injEq] at applied
      refine ⟨inner, applied ▸ function, fun value _ => ?_⟩
      cases found : inner.apply value with
      | error error => rfl
      | ok between => exact (apply.eq_1 between).symm
  | unary op =>
      rw [apply] at applied
      obtain ⟨formula, present, _⟩ | ⟨_, other, found, rfl⟩ := UnaryOp.applySet_cases applied
      · rw [noValue] at present
        contradiction
      · cases function.symm.trans found
        exact ⟨_, rfl, fun value _ => rfl⟩
  | sequence first next firstIh nextIh =>
      obtain ⟨between, firstApplied, nextApplied⟩ := apply_sequence applied
      obtain ⟨middle, middleFound, middleLaw⟩ := firstIh proper.1 noValue function firstApplied
      have stillNone := apply_noun_none proper.1 noValue firstApplied
      obtain ⟨composed, found, law⟩ := nextIh proper.2 stillNone middleFound nextApplied
      refine ⟨composed, found, fun value isValue => ?_⟩
      calc composed.apply value
          = middle.apply value >>= next.apply := law value isValue
        _ = inner.apply value >>= first.apply >>= next.apply := by rw [middleLaw value isValue]
        _ = inner.apply value >>= (Verb.sequence first next).apply := by
            cases inner.apply value <;> rfl
  | train op left right leftIh rightIh =>
      have noNoun := apply_noun_none proper noValue applied
      obtain ⟨x, y, _, _, rfl⟩ := apply_train applied
      cases noNoun
  | reflexive op =>
      rw [apply] at applied
      obtain ⟨_, rfl⟩ | ⟨absent, _⟩ := BinaryOp.applySet_cases applied
      · have side : Side.ofSet operand = .verb inner := by rw [Side.ofSet, function]
        rw [side]
        exact ⟨_, rfl, fun value isValue => apply_train_self op isValue⟩
      · rw [function] at absent
        contradiction

/-- A proper function takes a function exactly if no train is among its parts. -/
theorem exists_apply_eq_ok_iff (proper : outer.Proper) (noValue : operand.noun = none)
    (function : operand.monad = some inner) :
    (∃ result, outer.apply operand = .ok result) ↔ outer.isTrainFree = true := by
  induction outer using Verb.nestedInduction generalizing operand inner with
  | identity => exact iff_of_true ⟨operand, apply.eq_1 operand⟩ rfl
  | unary op =>
      refine iff_of_true ⟨.single (.monad (.sequence inner (.unary op))), ?_⟩ rfl
      rw [apply, UnaryOp.applySet, noValue, SymbolSet.requireMonad_eq_ok_iff.mpr function]
      rfl
  | reflexive op =>
      refine iff_of_true ⟨.single (.monad (.train op (.ofSet operand) (.ofSet operand))), ?_⟩ rfl
      rw [apply, BinaryOp.applySet, function]
      rfl
  | train op left right leftIh rightIh =>
      refine iff_of_false ?_ Bool.false_ne_true
      rintro ⟨result, applied⟩
      have noNoun := apply_noun_none proper noValue applied
      obtain ⟨x, y, _, _, rfl⟩ := apply_train applied
      cases noNoun
  | sequence first next firstIh nextIh =>
      rw [isTrainFree, Bool.and_eq_true, ← firstIh proper.1 noValue function]
      constructor
      · rintro ⟨result, applied⟩
        obtain ⟨between, firstApplied, nextApplied⟩ := apply_sequence applied
        obtain ⟨middle, found, _⟩ := apply_composes proper.1 noValue function firstApplied
        have stillNone := apply_noun_none proper.1 noValue firstApplied
        exact ⟨⟨between, firstApplied⟩, (nextIh proper.2 stillNone found).mp ⟨result, nextApplied⟩⟩
      · rintro ⟨⟨between, firstApplied⟩, nextFree⟩
        obtain ⟨middle, found, _⟩ := apply_composes proper.1 noValue function firstApplied
        have stillNone := apply_noun_none proper.1 noValue firstApplied
        obtain ⟨result, nextApplied⟩ := (nextIh proper.2 stillNone found).mpr nextFree
        refine ⟨result, ?_⟩
        rw [apply, firstApplied]
        exact nextApplied

end Applying

end Verb

namespace Evaluator

/-- A function that was answered, applied to what has a function and no value, is the composition
of the two: it refuses if a train is among its parts, and otherwise makes a function that takes each
value to what the outer function makes of what the inner makes of it, failures of the inner
included. -/
theorem apply_answer_composes (evaluator : Evaluator) (earlier : List Query) (query : Query)
    {answer : SymbolSet} {outer inner : Verb}
    (answered : evaluator.answerAfter earlier query = .ok answer)
    (outerFound : answer.monad = some outer) (operand : SymbolSet) (noValue : operand.noun = none)
    (innerFound : operand.monad = some inner) :
    ((∃ result, outer.apply operand = .ok result) ↔ outer.isTrainFree = true) ∧
      ∀ result, outer.apply operand = .ok result →
        ∃ composed, result.monad = some composed ∧
          ∀ value : SymbolSet, value.IsValue →
            composed.apply value = inner.apply value >>= outer.apply := by
  have proper := (answerAfter_eq_ok_iff_means.mp answered).proper outer outerFound
  exact ⟨Verb.exists_apply_eq_ok_iff proper noValue innerFound,
    fun result applied => Verb.apply_composes proper noValue innerFound applied⟩

/-- The function that doubles an operand and turns its sign, `+~` piped into `-`. -/
def doubleThenNegate : Verb := .sequence (.reflexive .add) (.unary .negate)

theorem doubleThenNegate_answered :
    (Evaluator.mk .standard ∅).answerAfter [.name "absent"]
        (.expression (.group [.group [.keyword "+", .keyword "~"] none, .keyword " ",
          .keyword "-"] none)) =
      .ok (.single (.monad doubleThenNegate)) := by
  have doubles : (Evaluator.mk .standard ∅).Means (.group [.keyword "+", .keyword "~"] none)
      (.single (.monad (.reflexive .add))) := .pair (.keyword "+") (.keyword "~") rfl
  exact answerAfter_eq_ok_iff_means.mpr (.triple (.keyword " ") doubles (.keyword "-") rfl)

/-- Given the train `- + 2`, the function that doubles and turns the sign makes a function that
takes 3 to what the two make of it one after the other. -/
theorem doubleThenNegate_composes :
    (Evaluator.mk .standard ∅).answerAfter [.name "absent"]
        (.expression (.group [.group [.keyword "+", .keyword "~"] none, .keyword " ",
          .keyword "-"] none)) =
      .ok (.single (.monad doubleThenNegate)) ∧
      doubleThenNegate.isTrainFree = true ∧
      ∃ result composed,
        doubleThenNegate.apply (.single (.monad (.train .add (.verb (.unary .negate))
          (.fixed (.number 2))))) = .ok result ∧
        result.monad = some composed ∧
        composed.apply (.single (.noun (.number 3))) =
          .ok (.single (.noun (.unary .negate (.binary .add
            (.binary .add (.unary .negate (.number 3)) (.number 2))
            (.binary .add (.unary .negate (.number 3)) (.number 2)))))) := by
  obtain ⟨succeeds, composes⟩ := apply_answer_composes _ _ _ doubleThenNegate_answered rfl
    (.single (.monad (.train .add (.verb (.unary .negate)) (.fixed (.number 2))))) rfl rfl
  obtain ⟨result, applied⟩ := succeeds.mpr rfl
  obtain ⟨composed, found, law⟩ := composes result applied
  exact ⟨doubleThenNegate_answered, rfl, result, composed, applied, found,
    law _ (SymbolSet.isValue_noun _)⟩

end Evaluator

end Tacit
