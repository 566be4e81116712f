import Tacit.Category
import Tacit.Formula
import Tacit.Text.Quoted

/-!
# Symbols

The meaning of a word or a group is a `SymbolSet`: for each category at most one symbol that
carries the meaning, and the names of meanings that are declared but not implemented.  Functions
of one operand are kept as descriptions (`Verb`), so that what a function does can be read off its
form.
-/

namespace Tacit

/-- Why an expression has no meaning. -/
inductive EvalError where
  /-- One of these categories was needed and those were found. -/
  | category (expected found : CategorySet)
  /-- The meaning that was needed is declared under this name and not implemented. -/
  | unsupportedOperator (name : String) (category : Category)
  /-- Expressions of this kind have no meaning of their own. -/
  | notEvaluable (kind : String)
  /-- A group has neither two nor three children. -/
  | malformed (children : Nat)
  /-- The meaning of a name was needed to find the meaning of the same name. -/
  | cycle (id : String)
  /-- No expression has this name. -/
  | unknownReference (id : String)
  /-- The formula that was found has no result. -/
  | execution (error : ExecutionError)
  deriving DecidableEq

/-- The text of an error. -/
def EvalError.message : EvalError → String
  | category expected found =>
      "Category error: expected " ++ expected.render ++ ", found " ++ found.render
  | unsupportedOperator name use =>
      "Unsupported operator: " ++ use.name ++ " '" ++ name ++ "' has no implementation"
  | notEvaluable kind => "Expression of kind " ++ kind ++ " cannot be evaluated"
  | malformed children =>
      "Group with " ++ toString children ++ " children cannot be evaluated"
  | cycle id => "Reference cycle through '" ++ id ++ "'"
  | unknownReference id => "Unknown reference: " ++ id
  | execution error => "Execution error: " ++ error.message

mutual

/-- A function of one operand. -/
inductive Verb where
  /-- The operand itself. -/
  | identity
  /-- Arithmetic on the operand. -/
  | unary (op : UnaryOp)
  /-- First one function, then another on its result. -/
  | sequence (first next : Verb)
  /-- Arithmetic on what two sides make of the operand. -/
  | train (op : BinaryOp) (left right : Side)
  /-- Arithmetic on the operand and itself. -/
  | reflexive (op : BinaryOp)
  deriving DecidableEq

/-- One side of a train. -/
inductive Side where
  /-- A function of the operand. -/
  | verb (verb : Verb)
  /-- A formula, whatever the operand is. -/
  | fixed (formula : Formula)
  /-- No formula, for this reason. -/
  | missing (error : EvalError)
  deriving DecidableEq

end

/-- An operator that joins two meanings. -/
inductive Conjunction where
  /-- The left side feeds the function on the right. -/
  | pipeline
  deriving DecidableEq

/-- An operator that changes one meaning. -/
inductive Adverb where
  /-- Give a function of two operands the same operand twice. -/
  | reflex
  deriving DecidableEq

/-- A meaning in one category.  All functions of two operands are arithmetic. -/
inductive Symbol where
  | noun (formula : Formula)
  | monad (verb : Verb)
  | dyad (op : BinaryOp)
  | conjunction (conjunction : Conjunction)
  | adverb (adverb : Adverb)

/-- The category of a symbol. -/
def Symbol.category : Symbol → Category
  | noun _ => .noun
  | monad _ => .monad
  | dyad _ => .dyad
  | conjunction _ => .conjunction
  | adverb _ => .adverb

/-- How a symbol is shown: a noun by its formula, all others by their category. -/
def Symbol.describe : Symbol → String
  | noun formula => "Noun(" ++ formula.render ++ ")"
  | other => other.category.name

/-- The meanings of one word or group. -/
structure SymbolSet where
  /-- The value. -/
  noun : Option Formula := none
  /-- The function of one operand. -/
  monad : Option Verb := none
  /-- The function of two operands. -/
  dyad : Option BinaryOp := none
  /-- The operator on two meanings. -/
  conjunction : Option Conjunction := none
  /-- The operator on one meaning. -/
  adverb : Option Adverb := none
  /-- Names of declared meanings without implementation. -/
  declared : ByCategory (Option String) := .replicate none
  deriving DecidableEq

namespace SymbolSet

instance : EmptyCollection SymbolSet := ⟨{}⟩

/-- Add a symbol in the stead of one of its category. -/
def insert (set : SymbolSet) : Symbol → SymbolSet
  | .noun formula => { set with noun := some formula }
  | .monad verb => { set with monad := some verb }
  | .dyad op => { set with dyad := some op }
  | .conjunction conjunction => { set with conjunction := some conjunction }
  | .adverb adverb => { set with adverb := some adverb }

/-- The set of one symbol. -/
def single (symbol : Symbol) : SymbolSet := insert ∅ symbol

/-- The set of the listed symbols; the last of a category stays. -/
def ofList (symbols : List Symbol) : SymbolSet := symbols.foldl insert ∅

/-- Note a meaning without implementation. -/
def declare (set : SymbolSet) (category : Category) (name : String) : SymbolSet :=
  { set with declared := set.declared.set category (some name) }

/-- The symbols in the order of their categories. -/
def symbols (set : SymbolSet) : List Symbol :=
  [set.noun.map .noun, set.monad.map .monad, set.dyad.map .dyad,
    set.conjunction.map .conjunction, set.adverb.map .adverb].filterMap id

/-- The categories with a symbol. -/
def categories (set : SymbolSet) : CategorySet where
  noun := set.noun.isSome
  monad := set.monad.isSome
  dyad := set.dyad.isSome
  conjunction := set.conjunction.isSome
  adverb := set.adverb.isSome

/-- Whether a category has a symbol or a declared name. -/
def offers (set : SymbolSet) (category : Category) : Bool :=
  set.categories.get category || (set.declared.get category).isSome

/-- Why none of the expected categories has a symbol: the first that is only declared, or else
the categories that were found. -/
def missing (set : SymbolSet) (expected : List Category) : EvalError :=
  let declared? := expected.findSome? fun category =>
    (set.declared.get category).map fun name => (name, category)
  match declared? with
  | some (name, category) => .unsupportedOperator name category
  | none => .category (.ofList expected) set.categories

/-- A symbol that must be there, or why it is not. -/
def demand {α : Type} (set : SymbolSet) (category : Category) : Option α → Except EvalError α
  | some symbol => .ok symbol
  | none => .error (set.missing [category])

/-- The formula, or why there is none. -/
def requireNoun (set : SymbolSet) : Except EvalError Formula := set.demand .noun set.noun

/-- The function of one operand, or why there is none. -/
def requireMonad (set : SymbolSet) : Except EvalError Verb := set.demand .monad set.monad

/-- The function of two operands, or why there is none. -/
def requireDyad (set : SymbolSet) : Except EvalError BinaryOp := set.demand .dyad set.dyad

/-- The operator on one meaning, or why there is none. -/
def requireAdverb (set : SymbolSet) : Except EvalError Adverb := set.demand .adverb set.adverb

/-- How a set is shown: its symbols, then the declared names, both in the order of categories. -/
def describe (set : SymbolSet) : String :=
  let declared := Category.all.filterMap fun category =>
    (set.declared.get category).map fun name => category.title ++ ": " ++ Text.quote name
  "SymbolSet \x7b symbols: [" ++ ", ".intercalate (set.symbols.map Symbol.describe)
    ++ "], declared: \x7b" ++ ", ".intercalate declared ++ "\x7d \x7d"

end SymbolSet

end Tacit
