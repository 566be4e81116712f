import Tacit.Proofs.Failure
import Tacit.Proofs.Soundness
import Tacit.Proofs.Unmixed

/-!
# What a failure tells of the words in use

A symbol may be missing because a word is declared and not implemented.  The failure then names the
declared meaning, if the category that was needed is one of those that the word is declared in.
This file follows failures back to the words: a failure is explained by a set of words if what it
says is borne out by them.  Whatever the operators of the standard grammar are applied to, failures
that they end with, and failures that they keep for later, are explained by the words in use.
-/

namespace Tacit

namespace KeywordTable

/-- A variant of a spelling is declared under a name in a category, and not implemented. -/
def Declares (table : KeywordTable) (spelling name : String) (category : Category) : Prop :=
  ∃ variant ∈ table.variants spelling, variant.name = name ∧ variant.meaning = .declared category

/-- Some word in use is declared under a name in a category. -/
def Promises (table : KeywordTable) (used : String → Prop) (name : String) (category : Category) :
    Prop :=
  ∃ spelling, used spelling ∧ table.Declares spelling name category

/-- Some word in use is arithmetic on two operands. -/
def Calculates (table : KeywordTable) (used : String → Prop) : Prop :=
  ∃ spelling op, used spelling ∧ table.Binds spelling (.binary op)

theorem Promises.mono {table : KeywordTable} {used wider : String → Prop} {name : String}
    {category : Category} (promises : table.Promises used name category)
    (wide : ∀ spelling, used spelling → wider spelling) :
    table.Promises wider name category := by
  obtain ⟨spelling, isUsed, declares⟩ := promises
  exact ⟨spelling, wide spelling isUsed, declares⟩

theorem Calculates.mono {table : KeywordTable} {used wider : String → Prop}
    (calculates : table.Calculates used) (wide : ∀ spelling, used spelling → wider spelling) :
    table.Calculates wider := by
  obtain ⟨spelling, op, isUsed, binds⟩ := calculates
  exact ⟨spelling, op, wide spelling isUsed, binds⟩

theorem symbols_dyad {table : KeywordTable} {spelling : String} {op : BinaryOp}
    (found : (table.symbols spelling).dyad = some op) : table.Binds spelling (.binary op) := by
  suffices bound : ∀ other, (table.symbols spelling).dyad = some other →
      table.Binds spelling (.binary other) from bound op found
  refine table.symbols_induction (motive := fun set => ∀ other, set.dyad = some other →
    table.Binds spelling (.binary other)) spelling ?_ fun variant member set holds => ?_
  · intro other impossible
    cases impossible
  · rw [Variant.contribute]
    split
    next builtin meaning =>
      cases builtin with
      | binary op =>
          intro other here
          cases here
          exact ⟨variant, member, meaning⟩
      | identity | pipeline | reflex | unary op => exact holds
    next => exact holds

theorem symbols_declared {table : KeywordTable} {spelling name : String} {category : Category}
    (found : (table.symbols spelling).declared.get category = some name) :
    table.Declares spelling name category := by
  suffices declared : ∀ category name,
      (table.symbols spelling).declared.get category = some name →
        table.Declares spelling name category from declared category name found
  refine table.symbols_induction (motive := fun set => ∀ category name,
    set.declared.get category = some name → table.Declares spelling name category) spelling
    ?_ fun variant member set holds => ?_
  · intro category name impossible
    cases category <;> cases impossible
  · rw [Variant.contribute]
    split
    next builtin _ => cases builtin <;> exact holds
    next declared meaning =>
      intro category name here
      by_cases same : category = declared
      · subst same
        rw [SymbolSet.declare, ByCategory.get_set_self] at here
        exact ⟨variant, member, Option.some.inj here, meaning⟩
      · rw [SymbolSet.declare, ByCategory.get_set_of_ne _ _ same] at here
        exact holds category name here

end KeywordTable

/-- What a failure for a missing symbol says is borne out by the words in use.  A declared meaning
that it names is one of theirs.  If nothing at all was found, a value was needed, by arithmetic, and
some word is declared as a function; so it is where a function was needed and a value found. -/
def EvalError.Explained (table : KeywordTable) (used : String → Prop) : EvalError → Prop
  | .unsupportedOperator name use => table.Promises used name use
  | .category expected found =>
      (found = ∅ → expected = {.noun} ∧ table.Calculates used) ∧
        (found = ∅ ∨ expected = {.monad} ∧ found = {.noun} →
          ∃ name, table.Promises used name .monad)
  | _ => True

/-- Whether a function works out arithmetic on two values. -/
def Verb.Calculates : Verb → Prop
  | .identity | .unary _ => False
  | .sequence first next => first.Calculates ∨ next.Calculates
  | .train _ _ _ | .reflexive _ => True

/-- All that a meaning holds goes back to the words in use. -/
structure SymbolSet.Traced (table : KeywordTable) (used : String → Prop) (set : SymbolSet) :
    Prop where
  /-- Failures that are kept in its function are explained. -/
  kept : set.Admits (EvalError.Explained table used)
  /-- Arithmetic in its function comes from a word. -/
  calculates : ∀ verb, set.monad = some verb → verb.Calculates → table.Calculates used
  /-- Its arithmetic comes from a word. -/
  dyad : ∀ op, set.dyad = some op → table.Calculates used
  /-- The names of declared meanings come from words. -/
  declared : ∀ category name, set.declared.get category = some name →
    table.Promises used name category

/-- A meaning that goes back to the words in use and can stand where a value or a function is
needed: if it has no symbol, it is declared as a function. -/
structure SymbolSet.Operand (table : KeywordTable) (used : String → Prop) (set : SymbolSet) : Prop
    extends set.Traced table used where
  usable : set.IsBlank → (set.declared.get .monad).isSome = true

namespace SymbolSet

variable {table : KeywordTable} {used : String → Prop} {set : SymbolSet}

theorem isBlank_of_categories (nothing : set.categories = ∅) : set.IsBlank := by
  have fields := ByCategory.mk.inj nothing
  simp only [Option.isSome_eq_false_iff, Option.isNone_iff_eq_none] at fields
  exact ⟨fields.1, fields.2.1, fields.2.2.1, fields.2.2.2.1, fields.2.2.2.2⟩

theorem only_noun_of_categories (only : set.categories = {.noun}) :
    set.noun ≠ none ∧ set.monad = none ∧ set.dyad = none := by
  have value : set.noun.isSome = true := congrArg ByCategory.noun only
  have noMonad : set.monad.isSome = false := congrArg ByCategory.monad only
  have noDyad : set.dyad.isSome = false := congrArg ByCategory.dyad only
  simp only [Option.isSome_eq_false_iff, Option.isNone_iff_eq_none] at noMonad noDyad
  exact ⟨Option.isSome_iff_ne_none.mp value, noMonad, noDyad⟩

theorem not_isBlank_single (symbol : Symbol) : ¬ (single symbol).IsBlank := by
  rintro ⟨noun, monad, dyad, conjunction, adverb⟩
  cases symbol <;> contradiction

/-- The failure for a missing symbol is explained, unless nothing was found and nothing declared, or
a function was needed where a value was found. -/
theorem Traced.missing (traced : set.Traced table used) {expected : List Category}
    (bare : set.IsBlank → (∀ category ∈ expected, set.declared.get category = none) →
      CategorySet.ofList expected = {.noun} ∧ table.Calculates used ∧
        ∃ name, table.Promises used name .monad)
    (fed : CategorySet.ofList expected = {.monad} → set.categories = {.noun} →
      ∃ name, table.Promises used name .monad) :
    (set.missing expected).Explained table used := by
  rw [SymbolSet.missing]
  split
  next name category found =>
    obtain ⟨other, _, named⟩ := List.exists_of_findSome?_eq_some found
    obtain ⟨_, declared, same⟩ := Option.map_eq_some_iff.mp named
    cases same
    exact traced.declared category name declared
  next undeclared =>
    have none_declared : ∀ category ∈ expected, set.declared.get category = none := by
      intro category member
      exact Option.map_eq_none_iff.mp (List.findSome?_eq_none_iff.mp undeclared category member)
    constructor
    · intro nothing
      obtain ⟨value, calculates, _⟩ := bare (isBlank_of_categories nothing) none_declared
      exact ⟨value, calculates⟩
    · rintro (nothing | ⟨function, value⟩)
      · exact (bare (isBlank_of_categories nothing) none_declared).2.2
      · exact fed function value

/-- The failure for a missing symbol is explained where one of the needed categories is declared. -/
theorem Traced.missing_of_declared (traced : set.Traced table used) {expected : List Category}
    (declares : set.IsBlank →
      ∃ category ∈ expected, (set.declared.get category).isSome = true)
    (fed : CategorySet.ofList expected = {.monad} → set.categories = {.noun} →
      ∃ name, table.Promises used name .monad) :
    (set.missing expected).Explained table used := by
  refine traced.missing (fun blank undeclared => ?_) fed
  obtain ⟨category, member, declared⟩ := declares blank
  rw [undeclared category member] at declared
  contradiction

theorem Operand.promises (operand : set.Operand table used) (blank : set.IsBlank) :
    ∃ name, table.Promises used name .monad := by
  obtain ⟨name, declared⟩ := Option.isSome_iff_exists.mp (operand.usable blank)
  exact ⟨name, operand.declared .monad name declared⟩

/-- Arithmetic that finds no value has an explanation. -/
theorem Operand.missing_noun (operand : set.Operand table used)
    (calculates : table.Calculates used) : (set.missing [.noun]).Explained table used := by
  refine operand.toTraced.missing (fun blank _ => ?_) fun impossible => ?_
  · exact ⟨rfl, calculates, operand.promises blank⟩
  · exact absurd impossible (by decide)

/-- What is no value and has no function has an explanation. -/
theorem Operand.missing_monad (operand : set.Operand table used) (noValue : set.noun = none) :
    (set.missing [.monad]).Explained table used := by
  refine operand.toTraced.missing_of_declared (fun blank => ?_) fun _ value => ?_
  · exact ⟨.monad, List.mem_cons_self, operand.usable blank⟩
  · exact absurd noValue (only_noun_of_categories value).1

/-- A missing value is reported with nothing found exactly where there is no symbol at all. -/
theorem requireNoun_bare_iff (undeclared : set.declared.get .noun = none) :
    set.requireNoun = .error (.category {.noun} ∅) ↔ set.IsBlank := by
  have missing : set.missing [.noun] = .category {.noun} set.categories := by
    simp only [SymbolSet.missing, List.findSome?_cons, undeclared, Option.map_none,
      List.findSome?_nil]
    rfl
  constructor
  · intro failed
    cases value : set.noun with
    | some formula =>
        rw [requireNoun, value, demand] at failed
        contradiction
    | none =>
        rw [requireNoun, value, demand, missing] at failed
        exact isBlank_of_categories (EvalError.category.inj (Except.error.inj failed)).2
  · intro blank
    have nothing : set.categories = ∅ := by
      obtain ⟨noun, monad, dyad, conjunction, adverb⟩ := blank
      simp only [categories, noun, monad, dyad, conjunction, adverb]
      rfl
    rw [requireNoun, blank.1, demand, missing, nothing]

theorem demand_ends_explained {α : Type} {category : Category} {found : Option α}
    (missing : found = none → (set.missing [category]).Explained table used) :
    Ends (EvalError.Explained table used) (fun symbol => found = some symbol)
      (set.demand category found) := by
  cases found with
  | none => exact missing rfl
  | some symbol => exact rfl

theorem operand_noun (formula : Formula) : (single (.noun formula)).Operand table used where
  kept := admits_noun formula
  calculates _ impossible := by cases impossible
  dyad _ impossible := by cases impossible
  declared category _ impossible := by cases category <;> cases impossible
  usable blank := absurd blank (not_isBlank_single _)

theorem operand_monad {verb : Verb} (admits : verb.Admits (EvalError.Explained table used))
    (calculates : verb.Calculates → table.Calculates used) :
    (single (.monad verb)).Operand table used where
  kept := admits_monad admits
  calculates other found := by
    cases found
    exact calculates
  dyad _ impossible := by cases impossible
  declared category _ impossible := by cases category <;> cases impossible
  usable blank := absurd blank (not_isBlank_single _)

end SymbolSet

section Application

variable {table : KeywordTable} {used : String → Prop} {left right operand : SymbolSet}

/-- A result is an operand again, or its failure is explained. -/
abbrev EndsExplained (table : KeywordTable) (used : String → Prop) :
    Except EvalError SymbolSet → Prop :=
  Ends (EvalError.Explained table used) (SymbolSet.Operand table used)

theorem Side.ofSet_explained (traced : operand.Operand table used)
    (calculates : table.Calculates used) :
    (Side.ofSet operand).Admits (EvalError.Explained table used) := by
  rw [ofSet]
  split
  next verb found => exact traced.kept verb found
  next =>
    have ends : Ends (EvalError.Explained table used) (fun formula => operand.noun = some formula)
        operand.requireNoun :=
      SymbolSet.demand_ends_explained fun _ => traced.missing_noun calculates
    split
    next => exact trivial
    next error failed =>
      rw [failed] at ends
      exact ends

theorem UnaryOp.applySet_explained (op : UnaryOp) (traced : operand.Operand table used) :
    EndsExplained table used (op.applySet operand) := by
  rw [applySet]
  split
  next formula _ => exact SymbolSet.operand_noun _
  next noValue =>
    refine (SymbolSet.demand_ends_explained fun _ => traced.missing_monad noValue).bind
      fun inner found => ?_
    refine SymbolSet.operand_monad ⟨traced.kept inner found, trivial⟩ fun calculates => ?_
    exact traced.calculates inner found (calculates.resolve_right id)

theorem BinaryOp.applySet_explained (op : BinaryOp) (calculates : table.Calculates used)
    (leftTraced : left.Operand table used) (rightTraced : right.Operand table used) :
    EndsExplained table used (op.applySet left right) := by
  rw [applySet]
  split
  next =>
    exact SymbolSet.operand_monad ⟨Side.ofSet_explained leftTraced calculates,
      Side.ofSet_explained rightTraced calculates⟩ fun _ => calculates
  next =>
    refine (SymbolSet.demand_ends_explained fun _ => leftTraced.missing_noun calculates).bind
      fun x _ => ?_
    refine (SymbolSet.demand_ends_explained fun _ => rightTraced.missing_noun calculates).bind
      fun y _ => ?_
    exact SymbolSet.operand_noun _

/-- Arithmetic finds nothing exactly where neither operand is a function and the first that is no
value has no symbol. -/
theorem BinaryOp.applySet_bare_iff (op : BinaryOp)
    (leftUndeclared : left.declared.get .noun = none)
    (rightUndeclared : right.declared.get .noun = none) :
    op.applySet left right = .error (.category {.noun} ∅) ↔
      left.monad = none ∧ right.monad = none ∧
        (left.IsBlank ∨ left.noun ≠ none ∧ right.IsBlank) := by
  rw [← SymbolSet.requireNoun_bare_iff leftUndeclared,
    ← SymbolSet.requireNoun_bare_iff rightUndeclared, applySet]
  cases leftMonad : left.monad with
  | some verb => simp
  | none =>
      cases rightMonad : right.monad with
      | some verb => simp
      | none =>
          -- Without a function the values are required in order.
          cases leftNoun : left.noun with
          | none =>
              have refused : left.requireNoun = .error (left.missing [.noun]) := by
                rw [SymbolSet.requireNoun, leftNoun, SymbolSet.demand]
              simp [refused, bind, Except.bind]
          | some formula =>
              rw [SymbolSet.requireNoun_eq_ok_iff.mpr leftNoun]
              cases right.requireNoun with
              | error error => simp [bind, Except.bind]
              | ok other => simp [bind, Except.bind, pure, Except.pure]

theorem Side.formula_explained {side : Side} (calculates : table.Calculates used)
    (admits : side.Admits (EvalError.Explained table used))
    (inside : ∀ verb, side = .verb verb → verb.Admits (EvalError.Explained table used) →
      EndsExplained table used (verb.apply operand)) :
    Ends (EvalError.Explained table used) (fun _ => True) (side.formula operand) := by
  cases side with
  | verb verb =>
      rw [formula]
      refine (inside verb rfl admits).bind fun made traced => ?_
      exact (SymbolSet.demand_ends_explained fun _ => traced.missing_noun calculates).imp
        fun _ _ => trivial
  | fixed formula => exact trivial
  | missing error => exact admits

/-- A function with failures that are explained fails in no other way. -/
theorem Verb.apply_explained {verb : Verb}
    (admits : verb.Admits (EvalError.Explained table used))
    (calculates : verb.Calculates → table.Calculates used)
    (traced : operand.Operand table used) : EndsExplained table used (verb.apply operand) := by
  induction verb using Verb.nestedInduction generalizing operand with
  | identity => exact traced
  | unary op => exact op.applySet_explained traced
  | sequence first next firstIh nextIh =>
      rw [apply]
      exact (firstIh admits.1 (fun inFirst => calculates (.inl inFirst)) traced).bind
        fun between betweenTraced =>
          nextIh admits.2 (fun inNext => calculates (.inr inNext)) betweenTraced
  | train op left right leftIh rightIh =>
      rw [apply]
      have arithmetic := calculates trivial
      refine (Side.formula_explained arithmetic admits.1 fun verb isVerb verbAdmits =>
        leftIh verb isVerb verbAdmits (fun _ => arithmetic) traced).bind fun x _ => ?_
      refine (Side.formula_explained arithmetic admits.2 fun verb isVerb verbAdmits =>
        rightIh verb isVerb verbAdmits (fun _ => arithmetic) traced).bind fun y _ => ?_
      exact SymbolSet.operand_noun _
  | reflexive op => exact op.applySet_explained (calculates trivial) traced traced

/-- A pipeline has an explanation for its failure, if there is one for a right side without
function. -/
theorem Conjunction.apply_explained (conjunction : Conjunction)
    (leftTraced : left.Operand table used) (rightTraced : right.Operand table used)
    (fed : right.monad = none → ∃ name, table.Promises used name .monad) :
    EndsExplained table used (conjunction.apply left right) := by
  cases conjunction with
  | pipeline =>
      rw [apply]
      split
      next formula next _ found =>
        exact Verb.apply_explained (rightTraced.kept next found)
          (rightTraced.calculates next found) leftTraced
      next notFed =>
        have leftMissing : (left.missing [.monad]).Explained table used := by
          cases value : left.noun with
          | none => exact leftTraced.missing_monad value
          | some formula =>
              -- The value is not handed on because there is no function to hand it to.
              have absent : right.monad = none := by
                cases following : right.monad with
                | none => rfl
                | some next => exact absurd following (notFed formula next value)
              refine leftTraced.toTraced.missing_of_declared (fun blank => ?_) fun _ _ => fed absent
              exact ⟨.monad, List.mem_cons_self, leftTraced.usable blank⟩
        refine (SymbolSet.demand_ends_explained fun _ => leftMissing).bind fun first leftMonad => ?_
        refine (SymbolSet.demand_ends_explained fun absent => ?_).bind fun next rightMonad => ?_
        · refine rightTraced.toTraced.missing_of_declared (fun blank => ?_) fun _ _ => fed absent
          exact ⟨.monad, List.mem_cons_self, rightTraced.usable blank⟩
        · refine SymbolSet.operand_monad ⟨leftTraced.kept first leftMonad,
            rightTraced.kept next rightMonad⟩ fun calculates => ?_
          exact calculates.elim (leftTraced.calculates first leftMonad)
            (rightTraced.calculates next rightMonad)

theorem Adverb.apply_explained (adverb : Adverb) (traced : operand.Traced table used)
    (present : ¬ operand.IsBlank) : EndsExplained table used (adverb.apply operand) := by
  cases adverb with
  | reflex =>
      rw [apply]
      have missing : (operand.missing [.dyad]).Explained table used :=
        traced.missing_of_declared (fun blank => absurd blank present) fun impossible =>
          absurd impossible (by decide)
      refine (SymbolSet.demand_ends_explained fun _ => missing).bind fun op found => ?_
      exact SymbolSet.operand_monad trivial fun _ => traced.dyad op found

theorem SymbolSet.between_explained {operator : SymbolSet} (traced : operator.Traced table used)
    (missing : (operator.missing [.dyad, .conjunction]).Explained table used)
    (leftTraced : left.Operand table used) (rightTraced : right.Operand table used)
    (fed : operator.dyad = none → operator.conjunction ≠ none → right.monad = none →
      ∃ name, table.Promises used name .monad) :
    EndsExplained table used (operator.between left right) := by
  rw [between]
  split
  next op found => exact op.applySet_explained (traced.dyad op found) leftTraced rightTraced
  next conjunction noDyad found =>
    refine conjunction.apply_explained leftTraced rightTraced (fed noDyad ?_)
    rw [found]
    exact Option.some_ne_none conjunction
  next => exact missing

theorem SymbolSet.beside_explained (traced : left.Traced table used)
    (missing : (left.missing [.monad, .dyad]).Explained table used)
    (rightTraced : right.Traced table used)
    (usable : right.offers .adverb = false → right.IsBlank →
      (right.declared.get .monad).isSome = true) :
    EndsExplained table used (left.beside right) := by
  rw [beside]
  split
  next => exact missing
  next functional =>
    have present : ¬ left.IsBlank := by
      rintro ⟨_, noMonad, noDyad, _⟩
      simp [noMonad, noDyad] at functional
    split
    next offered =>
      refine (demand_ends_explained fun absent => ?_).bind fun adverb _ =>
        adverb.apply_explained traced present
      refine rightTraced.missing_of_declared (fun _ => ⟨.adverb, List.mem_cons_self, ?_⟩)
        fun impossible => absurd impossible (by decide)
      simpa [offers, categories, ByCategory.get, absent] using offered
    next notOffered =>
      have argument : right.Operand table used :=
        ⟨rightTraced, usable (by simpa using notOffered)⟩
      refine (demand_ends_explained fun absent => ?_).bind fun verb found =>
        Verb.apply_explained (traced.kept verb found) (traced.calculates verb found) argument
      refine traced.missing_of_declared (fun blank => absurd blank present) fun _ value => ?_
      obtain ⟨_, noMonad, noDyad⟩ := only_noun_of_categories value
      simp [noMonad, noDyad] at functional

end Application

namespace SymbolSet

variable {set left right operator result : SymbolSet} {category : Category}

/-- All categories are offered, with a symbol or by name, or there is one value or one function. -/
def Delivers (set : SymbolSet) (categories : CategorySet) : Prop :=
  (∀ category ∈ categories, set.offers category = true) ∨ set.IsNoun ∨ set.IsMonad

/-- Grouping may take a meaning for one of this category. -/
def Serves (set : SymbolSet) (category : Category) : Prop :=
  ∃ categories, set.Fits categories ∧ set.Delivers categories ∧ category ∈ categories

theorem IsBlank.get_categories (blank : set.IsBlank) (category : Category) :
    set.categories.get category = false := by
  obtain ⟨noun, monad, dyad, conjunction, adverb⟩ := blank
  cases category <;> simp [categories, ByCategory.get, noun, monad, dyad, conjunction, adverb]

/-- A meaning without symbol is declared as what it serves for. -/
theorem Serves.declared (serves : set.Serves category) (blank : set.IsBlank) :
    (set.declared.get category).isSome = true := by
  obtain ⟨categories, _, offers | ⟨formula, rfl⟩ | ⟨verb, rfl⟩, member⟩ := serves
  · have offered := offers category member
    rwa [SymbolSet.offers, blank.get_categories, Bool.false_or] at offered
  · exact absurd blank (not_isBlank_single _)
  · exact absurd blank (not_isBlank_single _)

theorem Serves.usable (serves : set.Serves .noun ∨ set.Serves .monad) (blank : set.IsBlank) :
    (set.declared.get .monad).isSome = true := by
  obtain ⟨categories, fits, _, member⟩ | asFunction := serves
  · obtain ⟨formula, rfl⟩ := fits.noun member
    exact absurd blank (not_isBlank_single _)
  · exact asFunction.declared blank

/-- What serves for a function without having one is declared as one. -/
theorem Serves.declared_monad (serves : set.Serves .monad) (absent : set.monad = none) :
    (set.declared.get .monad).isSome = true := by
  obtain ⟨categories, fits, offers | ⟨formula, rfl⟩ | ⟨verb, rfl⟩, member⟩ := serves
  · simpa [SymbolSet.offers, SymbolSet.categories, ByCategory.get, absent] using
      offers .monad member
  · exact absurd member (fits.apart (fits.mem_noun rfl))
  · contradiction

/-- What joins does not serve as a dyad. -/
theorem Serves.not_dyad (serves : set.Serves .dyad) : set.conjunction = none := by
  obtain ⟨categories, fits, _, member⟩ := serves
  cases found : set.conjunction with
  | none => rfl
  | some conjunction =>
      have joins := fits.sub .conjunction (Option.isSome_iff_exists.mpr ⟨conjunction, found⟩)
      exact absurd member (fits.joins joins)

/-- An operator between operands makes one value or one function. -/
theorem isNoun_or_isMonad_of_between (unmixed : left.Unmixed)
    (joined : operator.between left right = .ok result) : result.IsNoun ∨ result.IsMonad := by
  obtain ⟨op, _, applied⟩ | ⟨_, conjunction, _, applied⟩ := between_cases joined
  · obtain ⟨_, rfl⟩ | ⟨_, _, x, y, _, _, rfl⟩ := BinaryOp.applySet_cases applied
    · exact .inr ⟨_, rfl⟩
    · exact .inl ⟨_, rfl⟩
  · obtain ⟨formula, next, value, _, fed⟩ | ⟨_, first, next, _, _, rfl⟩ :=
      Conjunction.apply_cases applied
    · exact .inl (Verb.apply_isNoun (unmixed.isNoun value) fed)
    · exact .inr ⟨_, rfl⟩

end SymbolSet

namespace Rule

variable {rule : Rule} {first second third : Category} {left right result : SymbolSet}

/-- Standard groups of three have an operator between values and functions, and a conjunction is
followed by a function. -/
theorem standard_triple (member : rule ∈ standard)
    (pattern : rule.pattern = [first, second, third]) :
    (first = .noun ∨ first = .monad) ∧
      (second = .dyad ∨ second = .conjunction ∧ third = .monad) ∧
      (third = .noun ∨ third = .monad) := by
  simp only [standard, List.mem_cons, List.not_mem_nil, or_false] at member
  obtain rfl | rfl | rfl | rfl | rfl | rfl | rfl | rfl | rfl | rfl := member <;> cases pattern <;>
    simp

/-- Standard groups of two have a function first, which is a dyad if another function follows. -/
theorem standard_pair (member : rule ∈ standard) (pattern : rule.pattern = [first, second]) :
    (first = .monad ∨ first = .dyad) ∧
      (second = .noun ∨ second = .adverb ∨ second = .monad ∧ first = .dyad) := by
  simp only [standard, List.mem_cons, List.not_mem_nil, or_false] at member
  obtain rfl | rfl | rfl | rfl | rfl | rfl | rfl | rfl | rfl | rfl := member <;> cases pattern <;>
    simp

/-- A group of two has one value or one function. -/
theorem isNoun_or_isMonad_of_beside (member : rule ∈ standard)
    (pattern : rule.pattern = [first, second]) (leftServes : left.Serves first)
    (rightServes : right.Serves second) (leftProper : left.Proper)
    (applied : left.beside right = .ok result) : result.IsNoun ∨ result.IsMonad := by
  obtain ⟨_, leftFits, _, leftMatches⟩ := leftServes
  obtain ⟨_, rightFits, _, rightMatches⟩ := rightServes
  obtain ⟨_, rfl | rfl | ⟨rfl, rfl⟩⟩ := standard_pair member pattern
  · exact .inl (SymbolSet.beside_value (rightFits.noun rightMatches) applied)
  · obtain ⟨made, rfl, _⟩ := SymbolSet.beside_adverb (rightFits.adverb rightMatches) applied
    exact .inr ⟨made, rfl⟩
  · obtain ⟨made, rfl, _⟩ := leftFits.beside_dyad leftMatches leftProper
      (rightFits.noun_eq_none rightMatches) applied
    exact .inr ⟨made, rfl⟩

end Rule

section Groups

variable {table : KeywordTable} {used : String → Prop} {rule : Rule}
  {first second third : Category} {left right operator : SymbolSet}

namespace Rule

theorem missing_operator_explained (member : rule ∈ standard)
    (pattern : rule.pattern = [first, second, third]) (serves : operator.Serves second)
    (traced : operator.Traced table used) :
    (operator.missing [.dyad, .conjunction]).Explained table used := by
  refine traced.missing_of_declared (fun blank => ⟨second, ?_, serves.declared blank⟩)
    fun impossible => absurd impossible (by decide)
  obtain ⟨_, rfl | ⟨rfl, _⟩, _⟩ := standard_triple member pattern <;> simp

/-- A group of three has one value or one function, or its failure is explained. -/
theorem between_explained (member : rule ∈ standard)
    (pattern : rule.pattern = [first, second, third]) (leftServes : left.Serves first)
    (operatorServes : operator.Serves second) (rightServes : right.Serves third)
    (leftTraced : left.Traced table used) (operatorTraced : operator.Traced table used)
    (rightTraced : right.Traced table used) :
    EndsExplained table used (operator.between left right) := by
  obtain ⟨leftRole, operatorRole, rightRole⟩ := standard_triple member pattern
  have leftUsable := SymbolSet.Serves.usable (leftRole.imp (· ▸ leftServes) (· ▸ leftServes))
  have rightUsable := SymbolSet.Serves.usable (rightRole.imp (· ▸ rightServes) (· ▸ rightServes))
  refine SymbolSet.between_explained operatorTraced
    (missing_operator_explained member pattern operatorServes operatorTraced)
    ⟨leftTraced, leftUsable⟩ ⟨rightTraced, rightUsable⟩ fun _ joins absent => ?_
  obtain rfl | ⟨_, rfl⟩ := operatorRole
  · exact absurd operatorServes.not_dyad joins
  · obtain ⟨name, declared⟩ := Option.isSome_iff_exists.mp (rightServes.declared_monad absent)
    exact ⟨name, rightTraced.declared .monad name declared⟩

theorem missing_function_explained (member : rule ∈ standard)
    (pattern : rule.pattern = [first, second]) (serves : left.Serves first)
    (traced : left.Traced table used) :
    (left.missing [.monad, .dyad]).Explained table used := by
  refine traced.missing_of_declared (fun blank => ⟨first, ?_, serves.declared blank⟩)
    fun impossible => absurd impossible (by decide)
  obtain ⟨rfl | rfl, _⟩ := standard_pair member pattern <;> simp

/-- A group of two has one value or one function, or its failure is explained. -/
theorem beside_explained (member : rule ∈ standard) (pattern : rule.pattern = [first, second])
    (leftServes : left.Serves first) (rightServes : right.Serves second)
    (leftTraced : left.Traced table used) (rightTraced : right.Traced table used) :
    EndsExplained table used (left.beside right) := by
  refine SymbolSet.beside_explained leftTraced
    (missing_function_explained member pattern leftServes leftTraced) rightTraced
    fun notOffered => ?_
  obtain ⟨_, rfl | rfl | ⟨rfl, _⟩⟩ := standard_pair member pattern
  · exact SymbolSet.Serves.usable (.inl rightServes)
  · obtain ⟨_, fits, _, member⟩ := rightServes
    rw [fits.adverb member] at notOffered
    contradiction
  · exact SymbolSet.Serves.usable (.inr rightServes)

end Rule

end Groups

end Tacit
