import Tacit.Keyword.Standard
import Tacit.Proofs.Keyword
import Tacit.Rule

/-!
# Meanings that fit their categories

The categories of a word or a group say which uses the grammar allows for it.  A meaning fits them
if it is a value exactly where they say so and has no symbol outside of them.  Operators, applied
as the rules of the standard grammar apply them, take meanings that fit to a meaning that fits.
-/

namespace Tacit

/-- The last function of a sequence is not the identity. -/
def Verb.Closes : Verb → Prop
  | .identity => False
  | .unary _ | .train _ _ _ | .reflexive _ => True
  | .sequence _ next => next.Closes

/-- Such a function makes a function of its own of whatever is no value. -/
theorem Verb.apply_closes {verb : Verb} (proper : verb.Proper) (closes : verb.Closes)
    {operand result : SymbolSet} (noValue : operand.noun = none)
    (applied : verb.apply operand = .ok result) :
    ∃ made, result = .single (.monad made) ∧ made.Closes := by
  have stillNoValue := apply_noun_none proper noValue applied
  induction verb using Verb.nestedInduction generalizing operand result with
  | identity => exact closes.elim
  | unary op =>
      rw [apply] at applied
      obtain ⟨formula, present, _⟩ | ⟨_, inner, _, rfl⟩ := UnaryOp.applySet_cases applied
      · rw [noValue] at present
        contradiction
      · exact ⟨_, rfl, trivial⟩
  | sequence first next firstIh nextIh =>
      obtain ⟨between, firstApplied, nextApplied⟩ := apply_sequence applied
      have betweenNoValue := apply_noun_none proper.1 noValue firstApplied
      exact nextIh proper.2 closes betweenNoValue nextApplied stillNoValue
  | train op left right leftIh rightIh =>
      obtain ⟨x, y, _, _, rfl⟩ := apply_train applied
      contradiction
  | reflexive op =>
      rw [apply] at applied
      obtain ⟨_, rfl⟩ | ⟨_, _, x, _, present, _⟩ := BinaryOp.applySet_cases applied
      · exact ⟨_, rfl, trivial⟩
      · rw [noValue] at present
        contradiction

/-- A meaning fits categories. -/
structure SymbolSet.Fits (set : SymbolSet) (categories : CategorySet) : Prop where
  /-- Its symbols are in these categories. -/
  sub : ∀ category ∈ set.categories, category ∈ categories
  /-- It is one value if this is one of the categories. -/
  noun : .noun ∈ categories → set.IsNoun
  /-- It is known as an adverb if this is one of the categories. -/
  adverb : .adverb ∈ categories → set.offers .adverb = true
  /-- What can be a dyad has no function that hands its operand on unchanged. -/
  closes : .dyad ∈ categories → ∀ verb, set.monad = some verb → verb.Closes
  /-- A value is no function. -/
  apart : .noun ∈ categories → .monad ∉ categories
  /-- What joins is no dyad. -/
  joins : .conjunction ∈ categories → .dyad ∉ categories

namespace SymbolSet

variable {set left right operator operand argument result : SymbolSet}
  {categories : CategorySet}

theorem categories_single (symbol : Symbol) : (single symbol).categories = {symbol.category} := by
  cases symbol <;> rfl

theorem Fits.mem_noun (fits : set.Fits categories) {formula : Formula}
    (found : set.noun = some formula) : .noun ∈ categories :=
  fits.sub .noun (Option.isSome_iff_exists.mpr ⟨formula, found⟩)

/-- What can be a function is no value. -/
theorem Fits.noun_eq_none (fits : set.Fits categories) (function : .monad ∈ categories) :
    set.noun = none := by
  cases found : set.noun with
  | none => rfl
  | some formula => exact absurd function (fits.apart (fits.mem_noun found))

theorem fits_noun (formula : Formula) : (single (.noun formula)).Fits {.noun} where
  sub _ member := categories_single (.noun formula) ▸ member
  noun _ := ⟨formula, rfl⟩
  adverb impossible := absurd impossible (by decide)
  closes impossible := absurd impossible (by decide)
  apart _ := by decide
  joins impossible := absurd impossible (by decide)

theorem fits_monad (verb : Verb) : (single (.monad verb)).Fits {.monad} where
  sub _ member := categories_single (.monad verb) ▸ member
  noun impossible := absurd impossible (by decide)
  adverb impossible := absurd impossible (by decide)
  closes impossible := absurd impossible (by decide)
  apart impossible := absurd impossible (by decide)
  joins impossible := absurd impossible (by decide)

theorem fits_monad_dyad {verb : Verb} (closes : verb.Closes) :
    (single (.monad verb)).Fits {.monad, .dyad} where
  sub category member := by
    rw [categories_single] at member
    cases category with
    | monad => decide
    | noun | dyad | conjunction | adverb => contradiction
  noun impossible := absurd impossible (by decide)
  adverb impossible := absurd impossible (by decide)
  closes _ other found := by
    cases found
    exact closes
  apart impossible := absurd impossible (by decide)
  joins impossible := absurd impossible (by decide)

theorem isMonad_of_applySet {op : BinaryOp} (noValue : left.noun = none ∨ right.noun = none)
    (applied : op.applySet left right = .ok result) : result.IsMonad := by
  obtain ⟨_, made⟩ | ⟨_, _, x, y, leftNoun, rightNoun, _⟩ := BinaryOp.applySet_cases applied
  · exact ⟨_, made⟩
  · simp [leftNoun, rightNoun] at noValue

theorem isNoun_of_applySet {op : BinaryOp} (leftValue : left.IsNoun) (rightValue : right.IsNoun)
    (applied : op.applySet left right = .ok result) : result.IsNoun := by
  obtain ⟨x, rfl⟩ := leftValue
  obtain ⟨y, rfl⟩ := rightValue
  cases applied
  exact ⟨_, rfl⟩

theorem isNoun_of_conjunction {conjunction : Conjunction} (value : left.IsNoun)
    (applied : conjunction.apply left right = .ok result) : result.IsNoun := by
  obtain ⟨formula, next, _, _, fed⟩ | ⟨absent, _⟩ := Conjunction.apply_cases applied
  · exact Verb.apply_isNoun value fed
  · obtain ⟨formula, rfl⟩ := value
    contradiction

theorem isMonad_of_conjunction {conjunction : Conjunction} (noValue : left.noun = none)
    (applied : conjunction.apply left right = .ok result) : result.IsMonad := by
  obtain ⟨formula, next, present, _⟩ | ⟨_, first, next, _, _, made⟩ :=
    Conjunction.apply_cases applied
  · rw [noValue] at present
    contradiction
  · exact ⟨_, made⟩

/-- What can be a dyad operates as arithmetic. -/
theorem Fits.between_dyad (fits : operator.Fits categories) (dyad : .dyad ∈ categories)
    (joined : operator.between left right = .ok result) :
    ∃ op : BinaryOp, op.applySet left right = .ok result := by
  obtain ⟨op, _, applied⟩ | ⟨_, conjunction, found, _⟩ := between_cases joined
  · exact ⟨op, applied⟩
  · have joining := fits.sub .conjunction (Option.isSome_iff_exists.mpr ⟨conjunction, found⟩)
    exact absurd dyad (fits.joins joining)

/-- What can be a conjunction operates as one. -/
theorem Fits.between_conjunction (fits : operator.Fits categories)
    (conjunction : .conjunction ∈ categories)
    (joined : operator.between left right = .ok result) :
    ∃ conjunction : Conjunction, conjunction.apply left right = .ok result := by
  obtain ⟨op, found, _⟩ | ⟨_, conjunction, _, applied⟩ := between_cases joined
  · have dyad := fits.sub .dyad (Option.isSome_iff_exists.mpr ⟨op, found⟩)
    exact absurd dyad (fits.joins conjunction)
  · exact ⟨conjunction, applied⟩

theorem beside_value (value : argument.IsNoun) (applied : operand.beside argument = .ok result) :
    result.IsNoun := by
  obtain ⟨offered, _⟩ | ⟨_, verb, _, taken⟩ := beside_cases applied
  · obtain ⟨formula, rfl⟩ := value
    contradiction
  · exact Verb.apply_isNoun value taken

theorem beside_adverb (adverb : argument.offers .adverb = true)
    (applied : operand.beside argument = .ok result) :
    ∃ made, result = .single (.monad made) ∧ made.Closes := by
  obtain ⟨_, changes, _, changed⟩ | ⟨notOffered, _⟩ := beside_cases applied
  · obtain ⟨op, _, rfl⟩ := Adverb.apply_cases changed
    exact ⟨_, rfl, trivial⟩
  · rw [adverb] at notOffered
    contradiction

/-- What can be a dyad makes a function of its own of whatever is no value. -/
theorem Fits.beside_dyad (fits : operand.Fits categories) (dyad : .dyad ∈ categories)
    (proper : operand.Proper) (noValue : argument.noun = none)
    (applied : operand.beside argument = .ok result) :
    ∃ made, result = .single (.monad made) ∧ made.Closes := by
  obtain ⟨offered, _⟩ | ⟨_, verb, found, taken⟩ := beside_cases applied
  · exact beside_adverb offered applied
  · exact Verb.apply_closes (proper verb found) (fits.closes dyad verb found) noValue taken

/-- One symbol that fits categories and belongs to one of them. -/
def IsOneOf (set : SymbolSet) (categories : CategorySet) : Prop :=
  set.Fits categories ∧ ∃ symbol, set = single symbol ∧ symbol.category ∈ categories

theorem IsNoun.isOneOf (value : set.IsNoun) : set.IsOneOf {.noun} := by
  obtain ⟨formula, rfl⟩ := value
  exact ⟨fits_noun formula, .noun formula, rfl, rfl⟩

theorem IsMonad.isOneOf (function : set.IsMonad) : set.IsOneOf {.monad} := by
  obtain ⟨verb, rfl⟩ := function
  exact ⟨fits_monad verb, .monad verb, rfl, rfl⟩

theorem isOneOf_monad_dyad (made : ∃ verb, set = single (.monad verb) ∧ verb.Closes) :
    set.IsOneOf {.monad, .dyad} := by
  obtain ⟨verb, rfl, closes⟩ := made
  exact ⟨fits_monad_dyad closes, .monad verb, rfl, rfl⟩

end SymbolSet

namespace Rule

variable {rule : Rule} {first second third : Category} {left right operator result : SymbolSet}
  {leftOffers operatorOffers rightOffers : CategorySet}

/-- A rule for three nodes gives the group the categories that its meaning fits. -/
theorem isOneOf_between (member : rule ∈ standard) (pattern : rule.pattern = [first, second, third])
    (leftFits : left.Fits leftOffers) (leftMatches : first ∈ leftOffers)
    (operatorFits : operator.Fits operatorOffers) (operatorMatches : second ∈ operatorOffers)
    (rightFits : right.Fits rightOffers) (rightMatches : third ∈ rightOffers)
    (joined : operator.between left right = .ok result) : result.IsOneOf rule.result := by
  simp only [standard, List.mem_cons, List.not_mem_nil, or_false] at member
  obtain rfl | rfl | rfl | rfl | rfl | rfl | rfl | rfl | rfl | rfl := member <;> cases pattern
  · obtain ⟨op, applied⟩ := operatorFits.between_dyad operatorMatches joined
    exact (SymbolSet.isMonad_of_applySet (.inl (leftFits.noun_eq_none leftMatches))
      applied).isOneOf
  · obtain ⟨op, applied⟩ := operatorFits.between_dyad operatorMatches joined
    exact (SymbolSet.isNoun_of_applySet (leftFits.noun leftMatches)
      (rightFits.noun rightMatches) applied).isOneOf
  · obtain ⟨op, applied⟩ := operatorFits.between_dyad operatorMatches joined
    exact (SymbolSet.isMonad_of_applySet (.inr (rightFits.noun_eq_none rightMatches))
      applied).isOneOf
  · obtain ⟨op, applied⟩ := operatorFits.between_dyad operatorMatches joined
    exact (SymbolSet.isMonad_of_applySet (.inl (leftFits.noun_eq_none leftMatches))
      applied).isOneOf
  · obtain ⟨conjunction, applied⟩ := operatorFits.between_conjunction operatorMatches joined
    exact (SymbolSet.isNoun_of_conjunction (leftFits.noun leftMatches) applied).isOneOf
  · obtain ⟨conjunction, applied⟩ := operatorFits.between_conjunction operatorMatches joined
    exact (SymbolSet.isMonad_of_conjunction (leftFits.noun_eq_none leftMatches) applied).isOneOf

/-- A rule for two nodes gives the group the categories that its meaning fits. -/
theorem isOneOf_beside (member : rule ∈ standard) (pattern : rule.pattern = [first, second])
    (leftFits : left.Fits leftOffers) (leftMatches : first ∈ leftOffers)
    (rightFits : right.Fits rightOffers) (rightMatches : second ∈ rightOffers)
    (leftProper : left.Proper) (applied : left.beside right = .ok result) :
    result.IsOneOf rule.result := by
  simp only [standard, List.mem_cons, List.not_mem_nil, or_false] at member
  obtain rfl | rfl | rfl | rfl | rfl | rfl | rfl | rfl | rfl | rfl := member <;> cases pattern
  · exact (SymbolSet.beside_value (rightFits.noun rightMatches) applied).isOneOf
  · exact SymbolSet.isOneOf_monad_dyad
      (SymbolSet.beside_adverb (rightFits.adverb rightMatches) applied)
  · exact SymbolSet.isOneOf_monad_dyad
      (SymbolSet.beside_adverb (rightFits.adverb rightMatches) applied)
  · exact SymbolSet.isOneOf_monad_dyad (leftFits.beside_dyad leftMatches leftProper
      (rightFits.noun_eq_none rightMatches) applied)

end Rule

namespace KeywordTable

/-- Variants without a value, where one that joins stands beside no dyad, and a dyad beside no
identity. -/
def Regular (variants : List Variant) : Prop :=
  .noun ∉ variants.map Variant.category ∧
    (.dyad ∈ variants.map Variant.category → .conjunction ∉ variants.map Variant.category ∧
      ∀ variant ∈ variants, variant.meaning ≠ .implemented .identity)

instance (variants : List Variant) : Decidable (Regular variants) :=
  inferInstanceAs (Decidable (_ ∧ _))

theorem regular_standard (spelling : String) : Regular (standard.variants spelling) := by
  rw [variants]
  cases found : standard.entries.get? spelling with
  | none => decide
  | some variants =>
      have regular : ∀ entry ∈ standard.entries.entries, Regular entry.2 :=
        forall_standard (by decide)
      exact regular (spelling, variants) (Catalog.exists_mem_of_get? found)

/-- Where no variant is the identity, the function of a spelling is arithmetic. -/
theorem symbols_closes {table : KeywordTable} {spelling : String}
    (noIdentity : ∀ variant ∈ table.variants spelling, variant.meaning ≠ .implemented .identity) :
    ∀ verb, (table.symbols spelling).monad = some verb → verb.Closes := by
  refine table.symbols_induction
    (motive := fun set => ∀ verb, set.monad = some verb → verb.Closes) spelling ?_ ?_
  · intro verb found
    cases found
  · intro variant member set holds
    have notIdentity := noIdentity variant member
    rw [Variant.contribute]
    split
    next builtin meaning =>
      cases builtin with
      | identity => exact absurd meaning notIdentity
      | unary op =>
          intro verb found
          cases found
          exact trivial
      | pipeline | reflex | binary op => exact holds
    next => exact holds

/-- The meaning of a spelling with regular variants fits its categories. -/
theorem symbols_fits {table : KeywordTable} {spelling : String}
    (regular : Regular (table.variants spelling)) :
    (table.symbols spelling).Fits (table.categories spelling) where
  sub category member := by
    refine (table.offers_symbols_iff spelling category).mp ?_
    rw [SymbolSet.offers, Bool.or_eq_true]
    exact .inl member
  noun member := absurd (CategorySet.mem_ofList.mp member) regular.1
  adverb := (table.offers_symbols_iff spelling .adverb).mpr
  closes member := symbols_closes (regular.2 (CategorySet.mem_ofList.mp member)).2
  apart member := absurd (CategorySet.mem_ofList.mp member) regular.1
  joins joining dyad :=
    (regular.2 (CategorySet.mem_ofList.mp dyad)).1 (CategorySet.mem_ofList.mp joining)

end KeywordTable

end Tacit
