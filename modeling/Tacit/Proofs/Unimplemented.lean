import Tacit.Keyword.Standard
import Tacit.Proofs.Interpretation
import Tacit.Proofs.Reachability

/-!
# Declared operators never reach a value

A keyword that is only declared has a meaning, though an empty one, and such a meaning may be handed
on or become part of a function.  This file follows it: whatever is made of it stays tainted, that
is, it has no value, it operates on nothing, and a function in it fails on every operand.  So an
expression with a value uses implemented keywords only, in itself and in all it refers to.
-/

namespace Tacit

/-- A function that has a result on no operand. -/
def Verb.Refuses (verb : Verb) : Prop := ∀ operand result, verb.apply operand ≠ .ok result

/-- A side that has a formula on no operand. -/
def Side.Refuses (side : Side) : Prop := ∀ operand formula, side.formula operand ≠ .ok formula

/-- Nothing but perhaps a function that refuses every operand. -/
structure SymbolSet.Tainted (set : SymbolSet) : Prop where
  noun : set.noun = none
  dyad : set.dyad = none
  conjunction : set.conjunction = none
  adverb : set.adverb = none
  monad : ∀ verb, set.monad = some verb → verb.Refuses

section Taint

variable {left right operand result : SymbolSet}

theorem SymbolSet.IsBlank.tainted {set : SymbolSet} (blank : set.IsBlank) : set.Tainted := by
  obtain ⟨noun, monad, dyad, conjunction, adverb⟩ := blank
  refine ⟨noun, dyad, conjunction, adverb, fun verb found => ?_⟩
  rw [monad] at found
  contradiction

theorem SymbolSet.tainted_monad {verb : Verb} (refuses : verb.Refuses) :
    (SymbolSet.single (.monad verb)).Tainted := by
  refine ⟨rfl, rfl, rfl, rfl, fun other found => ?_⟩
  cases found
  exact refuses

theorem Verb.refuses_sequence_of_first {first : Verb} (next : Verb) (refuses : first.Refuses) :
    (Verb.sequence first next).Refuses := by
  intro operand result applied
  obtain ⟨between, firstApplied, _⟩ := apply_sequence applied
  exact refuses operand between firstApplied

theorem Verb.refuses_sequence_of_next (first : Verb) {next : Verb} (refuses : next.Refuses) :
    (Verb.sequence first next).Refuses := by
  intro operand result applied
  obtain ⟨between, _, nextApplied⟩ := apply_sequence applied
  exact refuses between result nextApplied

theorem Verb.refuses_train {op : BinaryOp} {leftSide rightSide : Side}
    (refuses : leftSide.Refuses ∨ rightSide.Refuses) :
    (Verb.train op leftSide rightSide).Refuses := by
  intro operand result applied
  obtain ⟨x, y, leftFormula, rightFormula, _⟩ := apply_train applied
  obtain leftRefuses | rightRefuses := refuses
  · exact leftRefuses operand x leftFormula
  · exact rightRefuses operand y rightFormula

theorem Side.refuses_ofSet (tainted : operand.Tainted) : (Side.ofSet operand).Refuses := by
  intro argument formula found
  rw [ofSet] at found
  split at found
  next verb present =>
    obtain ⟨made, applied, _⟩ := formula_verb found
    exact tainted.monad verb present argument made applied
  next =>
    split at found
    next constant required =>
      rw [SymbolSet.requireNoun_eq_ok_iff, tainted.noun] at required
      contradiction
    next => cases found

/-- Arithmetic keeps the taint of either operand. -/
theorem BinaryOp.applySet_tainted {op : BinaryOp} (tainted : left.Tainted ∨ right.Tainted)
    (applied : op.applySet left right = .ok result) : result.Tainted := by
  obtain ⟨_, rfl⟩ | ⟨_, _, x, y, leftNoun, rightNoun, _⟩ := applySet_cases applied
  · exact SymbolSet.tainted_monad (Verb.refuses_train
      (tainted.imp Side.refuses_ofSet Side.refuses_ofSet))
  · obtain leftTainted | rightTainted := tainted
    · rw [leftTainted.noun] at leftNoun
      contradiction
    · rw [rightTainted.noun] at rightNoun
      contradiction

/-- A proper function keeps the taint of its operand. -/
theorem Verb.apply_tainted {verb : Verb} (proper : verb.Proper) (tainted : operand.Tainted)
    (applied : verb.apply operand = .ok result) : result.Tainted := by
  induction verb using Verb.nestedInduction generalizing operand result with
  | identity =>
      rw [apply, Except.ok.injEq] at applied
      exact applied ▸ tainted
  | unary op =>
      rw [apply] at applied
      obtain ⟨formula, present, _⟩ | ⟨_, inner, found, rfl⟩ := UnaryOp.applySet_cases applied
      · rw [tainted.noun] at present
        contradiction
      · exact SymbolSet.tainted_monad
          (refuses_sequence_of_first (.unary op) (tainted.monad inner found))
  | sequence first next firstIh nextIh =>
      obtain ⟨between, firstApplied, nextApplied⟩ := apply_sequence applied
      exact nextIh proper.2 (firstIh proper.1 tainted firstApplied) nextApplied
  | train op left right leftIh rightIh =>
      -- A train makes a value, and a proper one makes none of what is no value.
      have noValue := apply_noun_none proper tainted.noun applied
      obtain ⟨x, y, _, _, rfl⟩ := apply_train applied
      cases noValue
  | reflexive op =>
      rw [apply] at applied
      exact BinaryOp.applySet_tainted (.inl tainted) applied

/-- A pipeline keeps the taint of either end. -/
theorem Conjunction.apply_tainted {conjunction : Conjunction}
    (tainted : left.Tainted ∨ right.Tainted)
    (applied : conjunction.apply left right = .ok result) : result.Tainted := by
  obtain ⟨formula, next, leftNoun, rightMonad, fed⟩ |
    ⟨_, first, next, leftMonad, rightMonad, rfl⟩ := apply_cases applied
  · obtain leftTainted | rightTainted := tainted
    · rw [leftTainted.noun] at leftNoun
      contradiction
    · exact absurd fed (rightTainted.monad next rightMonad left result)
  · obtain leftTainted | rightTainted := tainted
    · exact SymbolSet.tainted_monad
        (Verb.refuses_sequence_of_first next (leftTainted.monad first leftMonad))
    · exact SymbolSet.tainted_monad
        (Verb.refuses_sequence_of_next first (rightTainted.monad next rightMonad))

/-- No operand of an operator is dropped. -/
theorem SymbolSet.between_tainted {operator : SymbolSet}
    (tainted : operator.Tainted ∨ left.Tainted ∨ right.Tainted)
    (joined : operator.between left right = .ok result) : result.Tainted := by
  obtain ⟨op, found, applied⟩ | ⟨_, conjunction, found, applied⟩ := between_cases joined
  · obtain operatorTainted | operandTainted := tainted
    · rw [operatorTainted.dyad] at found
      contradiction
    · exact BinaryOp.applySet_tainted operandTainted applied
  · obtain operatorTainted | operandTainted := tainted
    · rw [operatorTainted.conjunction] at found
      contradiction
    · exact Conjunction.apply_tainted operandTainted applied

/-- Neither of two neighbours is dropped. -/
theorem SymbolSet.beside_tainted (proper : left.Proper)
    (tainted : left.Tainted ∨ right.Tainted) (applied : left.beside right = .ok result) :
    result.Tainted := by
  obtain ⟨_, adverb, found, changed⟩ | ⟨_, verb, found, taken⟩ := beside_cases applied
  · obtain ⟨op, dyad, _⟩ := Adverb.apply_cases changed
    obtain leftTainted | rightTainted := tainted
    · rw [leftTainted.dyad] at dyad
      contradiction
    · rw [rightTainted.adverb] at found
      contradiction
  · obtain leftTainted | rightTainted := tainted
    · exact absurd taken (leftTainted.monad verb found right result)
    · exact Verb.apply_tainted (proper verb found) rightTainted taken

end Taint

namespace Evaluator

variable {evaluator : Evaluator} {expr : Expr} {set : SymbolSet}

/-- The meaning of an expression that uses a keyword without implementation is tainted. -/
theorem Means.tainted (means : evaluator.Means expr set) {spelling : String}
    (declaredOnly : ∀ variant ∈ evaluator.table.variants spelling,
      variant.isImplemented = false)
    (uses : evaluator.graph.Uses expr spelling) : set.Tainted := by
  induction means with
  | keyword other =>
      obtain leaf | ⟨id, _, _, mentions, _⟩ := uses
      · cases List.mem_singleton.mp leaf
        exact (KeywordTable.symbols_isBlank declaredOnly).tainted
      · cases List.mem_singleton.mp mentions
  | number value =>
      obtain leaf | ⟨id, _, _, mentions, _⟩ := uses
      · cases List.mem_singleton.mp leaf
      · cases List.mem_singleton.mp mentions
  | reference found named ih => exact ih (uses.named found)
  | triple operates leftMeans rightMeans joined operatesIh leftIh rightIh =>
      obtain ⟨child, member, childUses⟩ := uses.child
      simp only [List.mem_cons, List.not_mem_nil, or_false] at member
      obtain rfl | rfl | rfl := member
      · exact SymbolSet.between_tainted (.inr (.inl (leftIh childUses))) joined
      · exact SymbolSet.between_tainted (.inl (operatesIh childUses)) joined
      · exact SymbolSet.between_tainted (.inr (.inr (rightIh childUses))) joined
  | pair leftMeans rightMeans applied leftIh rightIh =>
      obtain ⟨child, member, childUses⟩ := uses.child
      simp only [List.mem_cons, List.not_mem_nil, or_false] at member
      obtain rfl | rfl := member
      · exact SymbolSet.beside_tainted leftMeans.proper (.inl (leftIh childUses)) applied
      · exact SymbolSet.beside_tainted leftMeans.proper (.inr (rightIh childUses)) applied

/-- Behind a value there are implemented keywords only, in the expression itself and in all
expressions that it reaches. -/
theorem value_uses_only_implemented (evaluator : Evaluator) (execute : Execution)
    {id target spelling : String} {value : Float} {expr : Expr}
    (valued : (evaluator.interpret execute).results.get? id = some (some value))
    (reaches : evaluator.graph.Reaches id target)
    (found : evaluator.graph.get? target = some expr)
    (leaf : Expr.keyword spelling ∈ expr.leaves) :
    evaluator.table.entries.contains spelling = true ∧
      ∃ variant ∈ evaluator.table.variants spelling, variant.isImplemented = true := by
  obtain ⟨source, set, formula, sourceFound, means, noun, _⟩ := means_of_value valued
  have uses := Graph.uses_of_reaches sourceFound reaches found leaf
  have implemented : ∃ variant ∈ evaluator.table.variants spelling,
      variant.isImplemented = true := by
    refine Classical.byContradiction fun none_implemented => ?_
    have declaredOnly : ∀ variant ∈ evaluator.table.variants spelling,
        variant.isImplemented = false := by
      intro variant member
      rw [← Bool.not_eq_true]
      exact fun implemented => none_implemented ⟨variant, member, implemented⟩
    have tainted := means.tainted declaredOnly uses
    rw [tainted.noun] at noun
    contradiction
  refine ⟨?_, implemented⟩
  obtain ⟨variant, member, _⟩ := implemented
  rw [KeywordTable.variants] at member
  cases entry : evaluator.table.entries.get? spelling with
  | none =>
      rw [entry] at member
      cases member
  | some variants => exact Catalog.contains_iff.mpr ⟨variants, entry⟩

theorem negatePlusSelfTwice_valued :
    ((Evaluator.mk .standard .negatePlusSelfTwice).interpret fun _ => .ok 0).results.get? "x" =
      some (some 0) := by
  cases means_negatePlusSelfTwice with
  | reference found named =>
      exact congrArg Prod.fst (interpret_entry_of_means _ (fun _ => .ok 0) found named)

theorem negatePlusSelfTwice_reaches_function : Graph.negatePlusSelfTwice.Reaches "x" "f" :=
  .single ⟨_, rfl, List.mem_cons_self⟩

/-- The value rests on the keyword `#` inside the function it refers to. -/
theorem negatePlusSelfTwice_uses_only_implemented :
    ((Evaluator.mk .standard .negatePlusSelfTwice).interpret fun _ => .ok 0).results.get? "x" =
        some (some 0) ∧
      Graph.negatePlusSelfTwice.Reaches "x" "f" ∧
      Graph.negatePlusSelfTwice.get? "f" = some .negatePlusSelf ∧
      KeywordTable.standard.entries.contains "#" = true ∧
      ∃ variant ∈ KeywordTable.standard.variants "#", variant.isImplemented = true :=
  ⟨negatePlusSelfTwice_valued, negatePlusSelfTwice_reaches_function, rfl,
    value_uses_only_implemented (.mk .standard .negatePlusSelfTwice) _ negatePlusSelfTwice_valued
      negatePlusSelfTwice_reaches_function rfl
      (by simp [Expr.negatePlusSelf, Expr.leaves, Expr.leavesOf])⟩

end Evaluator

end Tacit
