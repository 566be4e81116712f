import Tacit.Numeral

/-!
# Arithmetic formulas

A noun stands for a formula: numbers joined by arithmetic operators.  A formula has a text, which
serves as the diagnostic of its result, and a value, which is computed only within the `Limits` of
a run.
-/

namespace Tacit

/-- Arithmetic on one number. -/
inductive UnaryOp where
  | negate
  | reciprocal
  | floor
  | ceiling
  deriving DecidableEq

namespace UnaryOp

/-- All operators on one number. -/
def all : List UnaryOp := [negate, reciprocal, floor, ceiling]

/-- The word for an operator. -/
def name : UnaryOp → String
  | negate => "negate"
  | reciprocal => "reciprocal"
  | floor => "floor"
  | ceiling => "ceiling"

/-- The operator with exactly this name. -/
def ofName? (text : String) : Option UnaryOp := all.find? fun op => op.name = text

/-- The result on a number. -/
def apply : UnaryOp → Float → Float
  | negate, operand => -operand
  | reciprocal, operand => 1.0 / operand
  | floor, operand => operand.floor
  | ceiling, operand => operand.ceil

@[simp]
theorem ofName?_name (op : UnaryOp) : ofName? op.name = some op := by
  cases op <;> rfl

end UnaryOp

/-- Arithmetic on two numbers. -/
inductive BinaryOp where
  | add
  | subtract
  | multiply
  | divide
  | min
  | max
  deriving DecidableEq

namespace BinaryOp

/-- All operators on two numbers. -/
def all : List BinaryOp := [add, subtract, multiply, divide, min, max]

/-- The word for an operator in stored formulas. -/
def name : BinaryOp → String
  | add => "add"
  | subtract => "subtract"
  | multiply => "multiply"
  | divide => "divide"
  | min => "min"
  | max => "max"

/-- The sign for an operator in the text of a formula. -/
def sign : BinaryOp → String
  | add => "+"
  | subtract => "-"
  | multiply => "*"
  | divide => "/"
  | min => "min"
  | max => "max"

/-- The operator with exactly this name. -/
def ofName? (text : String) : Option BinaryOp := all.find? fun op => op.name = text

/-- The operator with exactly this sign. -/
def ofSign? (text : String) : Option BinaryOp := all.find? fun op => op.sign = text

/-- Whether the sign stands between the operands. -/
def standsBetween : BinaryOp → Bool
  | min | max => false
  | _ => true

/-- The result on two numbers.  The lesser and the greater of a number and of no number is the
number. -/
def apply : BinaryOp → Float → Float → Float
  | add, left, right => left + right
  | subtract, left, right => left - right
  | multiply, left, right => left * right
  | divide, left, right => left / right
  | min, left, right =>
      if left.isNaN then right else if right.isNaN then left
      else if right < left then right else left
  | max, left, right =>
      if left.isNaN then right else if right.isNaN then left
      else if left < right then right else left

@[simp]
theorem ofName?_name (op : BinaryOp) : ofName? op.name = some op := by
  cases op <;> rfl

@[simp]
theorem ofSign?_sign (op : BinaryOp) : ofSign? op.sign = some op := by
  cases op <;> rfl

end BinaryOp

/-- Numbers joined by arithmetic operators. -/
inductive Formula where
  | number (value : Float)
  | unary (op : UnaryOp) (operand : Formula)
  | binary (op : BinaryOp) (left right : Formula)
  deriving DecidableEq

/-- Why a formula has no result. -/
inductive ExecutionError where
  /-- The formula was refused before it was computed. -/
  | compile (reason : String)
  /-- The computed value was refused. -/
  | runtime (reason : String)
  deriving DecidableEq

/-- The text of an error. -/
def ExecutionError.message : ExecutionError → String
  | compile reason => "Compile error: " ++ reason
  | runtime reason => "Runtime error: " ++ reason

/-- What a run of a formula may do. -/
structure Limits where
  /-- The greatest depth that is computed. -/
  depth : UInt64 := 256
  /-- Whether a value that is not finite is refused. -/
  rejectNonFinite : Bool := true
  deriving DecidableEq

namespace Formula

/-- The text of a formula. -/
def render : Formula → String
  | number value => Numeral.text value
  | unary .negate operand => "-(" ++ operand.render ++ ")"
  | unary op operand => op.name ++ "(" ++ operand.render ++ ")"
  | binary op left right =>
      if op.standsBetween then "(" ++ left.render ++ " " ++ op.sign ++ " " ++ right.render ++ ")"
      else op.sign ++ "(" ++ left.render ++ ", " ++ right.render ++ ")"

/-- The number of levels, a number counting one. -/
def depth : Formula → Nat
  | number _ => 1
  | unary _ operand => 1 + operand.depth
  | binary _ left right => 1 + Nat.max left.depth right.depth

/-- The value of a formula. -/
def value : Formula → Float
  | number value => value
  | unary op operand => op.apply operand.value
  | binary op left right => op.apply left.value right.value

/-- The value of a formula that keeps within limits. -/
def run (limits : Limits) (formula : Formula) : Except ExecutionError Float :=
  if limits.depth.toNat < formula.depth then
    .error (.compile ("expression nesting " ++ toString formula.depth ++ " exceeds limit "
      ++ toString limits.depth.toNat))
  else
    let value := formula.value
    if limits.rejectNonFinite && !value.isFinite then
      .error (.runtime (formula.render ++ " evaluated to non-finite " ++ Numeral.text value))
    else .ok value

end Formula

end Tacit
