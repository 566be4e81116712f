import Tacit.Proofs.Inquiry
import Tacit.Symbol.Application

/-!
# What functions make of values and of functions

Every function takes a value to a value.  A function whose trains each have a side that depends on
the operand takes what is no value to what is no value, and all functions that can be built from
such functions are again of this kind.
-/

namespace Tacit

/-- Induction over functions, with the claim for the functions on both sides of a train. -/
@[elab_as_elim]
theorem Verb.nestedInduction {motive : Verb → Prop} (identity : motive .identity)
    (unary : ∀ op, motive (.unary op))
    (sequence : ∀ first next, motive first → motive next → motive (.sequence first next))
    (train : ∀ op left right, (∀ verb, left = .verb verb → motive verb) →
      (∀ verb, right = .verb verb → motive verb) → motive (.train op left right))
    (reflexive : ∀ op, motive (.reflexive op)) : ∀ verb, motive verb
  | .identity => identity
  | .unary op => unary op
  | .sequence first next => sequence first next
      (Verb.nestedInduction identity unary sequence train reflexive first)
      (Verb.nestedInduction identity unary sequence train reflexive next)
  | .train op left right => train op left right
      (fun verb _ => Verb.nestedInduction identity unary sequence train reflexive verb)
      (fun verb _ => Verb.nestedInduction identity unary sequence train reflexive verb)
  | .reflexive op => reflexive op
termination_by verb => sizeOf verb
decreasing_by
  all_goals subst_vars
  all_goals simp only [Verb.sequence.sizeOf_spec, Verb.train.sizeOf_spec, Side.verb.sizeOf_spec]
  all_goals omega

namespace SymbolSet

@[simp]
theorem demand_eq_ok_iff {α : Type} {set : SymbolSet} {category : Category} {found : Option α}
    {symbol : α} : set.demand category found = .ok symbol ↔ found = some symbol := by
  cases found <;> simp [demand]

@[simp]
theorem requireNoun_eq_ok_iff {set : SymbolSet} {formula : Formula} :
    set.requireNoun = .ok formula ↔ set.noun = some formula := demand_eq_ok_iff

@[simp]
theorem requireMonad_eq_ok_iff {set : SymbolSet} {verb : Verb} :
    set.requireMonad = .ok verb ↔ set.monad = some verb := demand_eq_ok_iff

@[simp]
theorem requireDyad_eq_ok_iff {set : SymbolSet} {op : BinaryOp} :
    set.requireDyad = .ok op ↔ set.dyad = some op := demand_eq_ok_iff

@[simp]
theorem requireAdverb_eq_ok_iff {set : SymbolSet} {adverb : Adverb} :
    set.requireAdverb = .ok adverb ↔ set.adverb = some adverb := demand_eq_ok_iff

/-- One value and nothing else. -/
def IsNoun (set : SymbolSet) : Prop := ∃ formula, set = single (.noun formula)

/-- One function and nothing else. -/
def IsMonad (set : SymbolSet) : Prop := ∃ verb, set = single (.monad verb)

end SymbolSet

/-- Whether a side of a train gives the same formula on every operand. -/
def Side.isFixed : Side → Bool
  | .fixed _ => true
  | _ => false

mutual

/-- No train inside gives a formula whatever the operand is. -/
def Verb.Proper : Verb → Prop
  | .identity | .unary _ | .reflexive _ => True
  | .sequence first next => first.Proper ∧ next.Proper
  | .train _ left right => left.Proper ∧ right.Proper ∧ (left.isFixed && right.isFixed) = false

/-- The function on a side, if there is one, is proper. -/
def Side.Proper : Side → Prop
  | .verb verb => verb.Proper
  | .fixed _ | .missing _ => True

end

/-- The function in a set, if there is one, is proper. -/
def SymbolSet.Proper (set : SymbolSet) : Prop := ∀ verb, set.monad = some verb → verb.Proper

section Arithmetic

variable {left right operand result : SymbolSet}

/-- Arithmetic on one operand gives a formula of a value, and otherwise a function. -/
theorem UnaryOp.applySet_cases {op : UnaryOp} (applied : op.applySet operand = .ok result) :
    (∃ formula, operand.noun = some formula ∧ result = .single (.noun (.unary op formula))) ∨
      (operand.noun = none ∧ ∃ inner, operand.monad = some inner ∧
        result = .single (.monad (.sequence inner (.unary op)))) := by
  rw [applySet] at applied
  cases found : operand.noun with
  | some formula =>
      simp only [found, Except.ok.injEq] at applied
      exact .inl ⟨formula, rfl, applied.symm⟩
  | none =>
      simp only [found, bind_eq_ok_iff, SymbolSet.requireMonad_eq_ok_iff] at applied
      obtain ⟨inner, present, made⟩ := applied
      cases made
      exact .inr ⟨rfl, inner, present, rfl⟩

/-- Arithmetic on two operands gives a train as soon as one is a function, and otherwise a formula
of two values. -/
theorem BinaryOp.applySet_cases {op : BinaryOp} (applied : op.applySet left right = .ok result) :
    ((left.monad.isSome || right.monad.isSome) = true ∧
        result = .single (.monad (.train op (.ofSet left) (.ofSet right)))) ∨
      (left.monad = none ∧ right.monad = none ∧ ∃ x y, left.noun = some x ∧
        right.noun = some y ∧ result = .single (.noun (.binary op x y))) := by
  rw [applySet] at applied
  split at applied
  next some_function =>
    cases applied
    exact .inl ⟨some_function, rfl⟩
  next no_function =>
    simp only [bind_eq_ok_iff, SymbolSet.requireNoun_eq_ok_iff] at applied
    obtain ⟨x, leftNoun, y, rightNoun, made⟩ := applied
    cases made
    simp only [Bool.or_eq_true, not_or, Bool.not_eq_true, Option.isSome_eq_false_iff,
      Option.isNone_iff_eq_none] at no_function
    exact .inr ⟨no_function.1, no_function.2, x, y, leftNoun, rightNoun, rfl⟩

/-- A value fed into a function gives what the function makes of it; otherwise two functions make
a sequence. -/
theorem Conjunction.apply_cases {conjunction : Conjunction}
    (applied : conjunction.apply left right = .ok result) :
    (∃ formula next, left.noun = some formula ∧ right.monad = some next ∧
        next.apply left = .ok result) ∨
      (left.noun = none ∧ ∃ first next, left.monad = some first ∧ right.monad = some next ∧
        result = .single (.monad (.sequence first next))) := by
  cases conjunction with
  | pipeline =>
      rw [apply] at applied
      split at applied
      next formula next leftNoun rightMonad =>
        exact .inl ⟨formula, next, leftNoun, rightMonad, applied⟩
      next notFed =>
        simp only [bind_eq_ok_iff, SymbolSet.requireMonad_eq_ok_iff] at applied
        obtain ⟨first, leftMonad, next, rightMonad, made⟩ := applied
        cases made
        refine .inr ⟨?_, first, next, leftMonad, rightMonad, rfl⟩
        cases leftNoun : left.noun with
        | none => rfl
        | some formula => exact absurd rightMonad (notFed formula next leftNoun)

/-- An adverb makes a function of one operand out of one of two operands. -/
theorem Adverb.apply_cases {adverb : Adverb} (applied : adverb.apply operand = .ok result) :
    ∃ op, operand.dyad = some op ∧ result = .single (.monad (.reflexive op)) := by
  cases adverb with
  | reflex =>
      rw [apply] at applied
      simp only [bind_eq_ok_iff, SymbolSet.requireDyad_eq_ok_iff] at applied
      obtain ⟨op, found, made⟩ := applied
      cases made
      exact ⟨op, found, rfl⟩

theorem Verb.apply_sequence {first next : Verb}
    (applied : (Verb.sequence first next).apply operand = .ok result) :
    ∃ between, first.apply operand = .ok between ∧ next.apply between = .ok result := by
  rw [apply, bind_eq_ok_iff] at applied
  exact applied

theorem Verb.apply_train {op : BinaryOp} {leftSide rightSide : Side}
    (applied : (Verb.train op leftSide rightSide).apply operand = .ok result) :
    ∃ x y, leftSide.formula operand = .ok x ∧ rightSide.formula operand = .ok y ∧
      result = .single (.noun (.binary op x y)) := by
  simp only [apply, bind_eq_ok_iff] at applied
  obtain ⟨x, leftFormula, y, rightFormula, made⟩ := applied
  cases made
  exact ⟨x, y, leftFormula, rightFormula, rfl⟩

theorem Side.formula_verb {verb : Verb} {formula : Formula}
    (found : (Side.verb verb).formula operand = .ok formula) :
    ∃ made, verb.apply operand = .ok made ∧ made.noun = some formula := by
  simpa only [Side.formula, bind_eq_ok_iff, SymbolSet.requireNoun_eq_ok_iff] using found

end Arithmetic

namespace SymbolSet

/-- The meaning of an operator between two operands. -/
def between (operator left right : SymbolSet) : Except EvalError SymbolSet :=
  match operator.dyad, operator.conjunction with
  | some op, _ => op.applySet left right
  | none, some conjunction => conjunction.apply left right
  | none, none => .error (operator.missing [.dyad, .conjunction])

/-- The meaning of a function beside its operand, or beside the adverb that changes it. -/
def beside (operand argument : SymbolSet) : Except EvalError SymbolSet :=
  if operand.monad.isNone && operand.dyad.isNone then .error (operand.missing [.monad, .dyad])
  else if argument.offers .adverb then do
    let adverb ← argument.requireAdverb
    adverb.apply operand
  else do
    let verb ← operand.requireMonad
    verb.apply argument

theorem between_cases {operator left right result : SymbolSet}
    (joined : operator.between left right = .ok result) :
    (∃ op, operator.dyad = some op ∧ op.applySet left right = .ok result) ∨
      (operator.dyad = none ∧ ∃ conjunction, operator.conjunction = some conjunction ∧
        conjunction.apply left right = .ok result) := by
  rw [between] at joined
  split at joined
  next op found => exact .inl ⟨op, found, joined⟩
  next conjunction absent found => exact .inr ⟨absent, conjunction, found, joined⟩
  next => contradiction

theorem beside_cases {operand argument result : SymbolSet}
    (applied : operand.beside argument = .ok result) :
    (argument.offers .adverb = true ∧ ∃ adverb, argument.adverb = some adverb ∧
        adverb.apply operand = .ok result) ∨
      (argument.offers .adverb = false ∧ ∃ verb, operand.monad = some verb ∧
        verb.apply argument = .ok result) := by
  rw [beside] at applied
  split at applied
  next => contradiction
  next =>
    split at applied
    next offered =>
      simp only [bind_eq_ok_iff, requireAdverb_eq_ok_iff] at applied
      exact .inl ⟨offered, applied⟩
    next notOffered =>
      simp only [bind_eq_ok_iff, requireMonad_eq_ok_iff] at applied
      exact .inr ⟨by simpa using notOffered, applied⟩

end SymbolSet

/-- Every function takes a value to a value. -/
theorem Verb.apply_isNoun {verb : Verb} {operand result : SymbolSet} (value : operand.IsNoun)
    (applied : verb.apply operand = .ok result) : result.IsNoun := by
  induction verb using Verb.nestedInduction generalizing operand result with
  | identity =>
      rw [apply, Except.ok.injEq] at applied
      exact applied ▸ value
  | unary op =>
      rw [apply] at applied
      obtain ⟨formula, _, made⟩ | ⟨absent, _⟩ := UnaryOp.applySet_cases applied
      · exact ⟨_, made⟩
      · obtain ⟨formula, rfl⟩ := value
        cases absent
  | sequence first next firstIh nextIh =>
      obtain ⟨between, firstApplied, nextApplied⟩ := apply_sequence applied
      exact nextIh (firstIh value firstApplied) nextApplied
  | train op left right leftIh rightIh =>
      obtain ⟨x, y, _, _, made⟩ := apply_train applied
      exact ⟨_, made⟩
  | reflexive op =>
      rw [apply] at applied
      obtain ⟨deferred, _⟩ | ⟨_, _, x, y, _, _, made⟩ := BinaryOp.applySet_cases applied
      · obtain ⟨formula, rfl⟩ := value
        cases deferred
      · exact ⟨_, made⟩

/-- A side that is not fixed has no formula where its function makes no value. -/
theorem Side.formula_of_noun_none {side : Side} {operand : SymbolSet} {formula : Formula}
    (notFixed : side.isFixed = false)
    (keeps : ∀ verb, side = .verb verb → ∀ result, verb.apply operand = .ok result →
      result.noun = none) : side.formula operand ≠ .ok formula := by
  intro found
  cases side with
  | verb verb =>
      obtain ⟨made, applied, noun⟩ := formula_verb found
      rw [keeps verb rfl made applied] at noun
      contradiction
  | fixed constant => cases notFixed
  | missing error => cases found

/-- A proper function takes what is no value to what is no value. -/
theorem Verb.apply_noun_none {verb : Verb} (proper : verb.Proper) {operand result : SymbolSet}
    (noValue : operand.noun = none) (applied : verb.apply operand = .ok result) :
    result.noun = none := by
  induction verb using Verb.nestedInduction generalizing operand result with
  | identity =>
      rw [apply, Except.ok.injEq] at applied
      exact applied ▸ noValue
  | unary op =>
      rw [apply] at applied
      obtain ⟨formula, present, _⟩ | ⟨_, inner, _, made⟩ := UnaryOp.applySet_cases applied
      · rw [noValue] at present
        contradiction
      · rw [made]
        rfl
  | sequence first next firstIh nextIh =>
      obtain ⟨between, firstApplied, nextApplied⟩ := apply_sequence applied
      exact nextIh proper.2 (firstIh proper.1 noValue firstApplied) nextApplied
  | train op left right leftIh rightIh =>
      obtain ⟨leftProper, rightProper, moves⟩ := proper
      obtain ⟨x, y, leftFormula, rightFormula, _⟩ := apply_train applied
      obtain leftMoves | rightMoves := Bool.and_eq_false_iff.mp moves
      · refine absurd leftFormula (Side.formula_of_noun_none leftMoves ?_)
        rintro verb rfl result verbApplied
        exact leftIh verb rfl leftProper noValue verbApplied
      · refine absurd rightFormula (Side.formula_of_noun_none rightMoves ?_)
        rintro verb rfl result verbApplied
        exact rightIh verb rfl rightProper noValue verbApplied
  | reflexive op =>
      rw [apply] at applied
      obtain ⟨_, made⟩ | ⟨_, _, x, _, present, _⟩ := BinaryOp.applySet_cases applied
      · rw [made]
        rfl
      · rw [noValue] at present
        contradiction

section Proper

variable {left right operand result : SymbolSet}

theorem SymbolSet.proper_noun (formula : Formula) :
    (SymbolSet.single (.noun formula)).Proper := by
  intro verb found
  cases found

theorem SymbolSet.proper_monad {verb : Verb} (proper : verb.Proper) :
    (SymbolSet.single (.monad verb)).Proper := by
  intro other found
  cases found
  exact proper

theorem Side.proper_ofSet (proper : operand.Proper) : (Side.ofSet operand).Proper := by
  rw [ofSet]
  split
  next verb found => exact proper verb found
  next =>
    split
    next => exact trivial
    next => exact trivial

theorem Side.isFixed_ofSet (deferred : operand.monad.isSome = true) :
    (Side.ofSet operand).isFixed = false := by
  obtain ⟨verb, found⟩ := Option.isSome_iff_exists.mp deferred
  rw [ofSet, found]
  rfl

theorem BinaryOp.applySet_proper {op : BinaryOp} (leftProper : left.Proper)
    (rightProper : right.Proper) (applied : op.applySet left right = .ok result) :
    result.Proper := by
  obtain ⟨deferred, rfl⟩ | ⟨_, _, x, y, _, _, rfl⟩ := applySet_cases applied
  · refine SymbolSet.proper_monad
      ⟨Side.proper_ofSet leftProper, Side.proper_ofSet rightProper, ?_⟩
    obtain leftDeferred | rightDeferred := Bool.or_eq_true_iff.mp deferred
    · rw [Side.isFixed_ofSet leftDeferred, Bool.false_and]
    · rw [Side.isFixed_ofSet rightDeferred, Bool.and_false]
  · exact SymbolSet.proper_noun _

/-- Proper functions on proper operands have proper results. -/
theorem Verb.apply_proper {verb : Verb} (proper : verb.Proper) (operandProper : operand.Proper)
    (applied : verb.apply operand = .ok result) : result.Proper := by
  induction verb using Verb.nestedInduction generalizing operand result with
  | identity =>
      rw [apply, Except.ok.injEq] at applied
      exact applied ▸ operandProper
  | unary op =>
      rw [apply] at applied
      obtain ⟨formula, _, rfl⟩ | ⟨_, inner, found, rfl⟩ := UnaryOp.applySet_cases applied
      · exact SymbolSet.proper_noun _
      · exact SymbolSet.proper_monad ⟨operandProper inner found, trivial⟩
  | sequence first next firstIh nextIh =>
      obtain ⟨between, firstApplied, nextApplied⟩ := apply_sequence applied
      exact nextIh proper.2 (firstIh proper.1 operandProper firstApplied) nextApplied
  | train op left right leftIh rightIh =>
      obtain ⟨x, y, _, _, rfl⟩ := apply_train applied
      exact SymbolSet.proper_noun _
  | reflexive op =>
      rw [apply] at applied
      exact BinaryOp.applySet_proper operandProper operandProper applied

theorem Adverb.apply_proper {adverb : Adverb} (applied : adverb.apply operand = .ok result) :
    result.Proper := by
  obtain ⟨op, _, rfl⟩ := apply_cases applied
  exact SymbolSet.proper_monad trivial

theorem Conjunction.apply_proper {conjunction : Conjunction} (leftProper : left.Proper)
    (rightProper : right.Proper) (applied : conjunction.apply left right = .ok result) :
    result.Proper := by
  obtain ⟨formula, next, _, rightMonad, fed⟩ | ⟨_, first, next, leftMonad, rightMonad, rfl⟩ :=
    apply_cases applied
  · exact Verb.apply_proper (rightProper next rightMonad) leftProper fed
  · exact SymbolSet.proper_monad ⟨leftProper first leftMonad, rightProper next rightMonad⟩

theorem SymbolSet.between_proper {operator : SymbolSet} (leftProper : left.Proper)
    (rightProper : right.Proper) (joined : operator.between left right = .ok result) :
    result.Proper := by
  obtain ⟨op, _, applied⟩ | ⟨_, conjunction, _, applied⟩ := between_cases joined
  · exact BinaryOp.applySet_proper leftProper rightProper applied
  · exact Conjunction.apply_proper leftProper rightProper applied

theorem SymbolSet.beside_proper (leftProper : left.Proper) (rightProper : right.Proper)
    (applied : left.beside right = .ok result) : result.Proper := by
  obtain ⟨_, adverb, _, changed⟩ | ⟨_, verb, found, taken⟩ := beside_cases applied
  · exact Adverb.apply_proper changed
  · exact Verb.apply_proper (leftProper verb found) rightProper taken

end Proper

end Tacit
