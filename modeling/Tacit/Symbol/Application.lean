import Tacit.Symbol

/-!
# Applying symbols

Functions and operators take symbol sets to symbol sets.  Given values they build formulas; given
functions they build functions: arithmetic on one operand composes, and arithmetic on two operands
makes a train, with `(f + g) v` standing for `(f v) + (g v)`.
-/

namespace Tacit

/-- What a symbol set contributes as one side of a train. -/
def Side.ofSet (set : SymbolSet) : Side :=
  match set.monad with
  | some function => .verb function
  | none => match set.requireNoun with
    | .ok formula => .fixed formula
    | .error error => .missing error

/-- Arithmetic on one operand: on a value it gives a formula, after a function a function. -/
def UnaryOp.applySet (op : UnaryOp) (operand : SymbolSet) : Except EvalError SymbolSet :=
  match operand.noun with
  | some formula => .ok (.single (.noun (.unary op formula)))
  | none => do
      let inner ← operand.requireMonad
      return .single (.monad (.sequence inner (.unary op)))

/-- Arithmetic on two operands: a train as soon as one of them is a function, otherwise a formula
of two values. -/
def BinaryOp.applySet (op : BinaryOp) (left right : SymbolSet) : Except EvalError SymbolSet :=
  if left.monad.isSome || right.monad.isSome then
    .ok (.single (.monad (.train op (.ofSet left) (.ofSet right))))
  else do
    let leftFormula ← left.requireNoun
    let rightFormula ← right.requireNoun
    return .single (.noun (.binary op leftFormula rightFormula))

mutual

/-- The result of a function on an operand. -/
def Verb.apply : Verb → SymbolSet → Except EvalError SymbolSet
  | .identity, operand => .ok operand
  | .unary op, operand => op.applySet operand
  | .sequence first next, operand => do
      let between ← first.apply operand
      next.apply between
  | .train op left right, operand => do
      let leftFormula ← left.formula operand
      let rightFormula ← right.formula operand
      return .single (.noun (.binary op leftFormula rightFormula))
  | .reflexive op, operand => op.applySet operand operand

/-- The formula that one side of a train makes of an operand. -/
def Side.formula : Side → SymbolSet → Except EvalError Formula
  | .verb verb, operand => do
      let result ← verb.apply operand
      result.requireNoun
  | .fixed formula, _ => .ok formula
  | .missing error, _ => .error error

end

/-- The result of a conjunction.  A value on the left is handed to a function on the right at
once; otherwise two functions are put in sequence. -/
def Conjunction.apply : Conjunction → (left right : SymbolSet) → Except EvalError SymbolSet
  | .pipeline, left, right =>
      match left.noun, right.monad with
      | some _, some next => next.apply left
      | _, _ => do
          let first ← left.requireMonad
          let next ← right.requireMonad
          return .single (.monad (.sequence first next))

/-- The result of an adverb. -/
def Adverb.apply : Adverb → SymbolSet → Except EvalError SymbolSet
  | .reflex, operand => do
      let op ← operand.requireDyad
      return .single (.monad (.reflexive op))

end Tacit
