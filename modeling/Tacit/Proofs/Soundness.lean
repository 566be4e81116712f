import Mathlib.Data.List.Basic
import Tacit.Proofs.Fitting
import Tacit.Proofs.Language

/-!
# Grouping and evaluation agree

Grouping gives categories to an expression by folding it with rules; the categories of a name come
from the parts of its source, before they are grouped.  Evaluation gives it a meaning by applying
symbols, and takes the meaning of a name from the finished graph.  With the standard grammar and a
vocabulary of regular keywords, every meaning fits the categories.
-/

namespace Tacit

namespace Language

variable {language : Language} {sources : Catalog String} {id : String} {expr : Expr}
  {set : SymbolSet}

/-- A meaning fits what an expression offers, and the meaning of a group is one symbol of the
categories that are stored with it. -/
def Agrees (grouper : Grouper) (expr : Expr) (set : SymbolSet) : Prop :=
  ∃ categories, grouper.Offers expr.toNode categories ∧ set.Fits categories ∧
    ∀ children known, expr = .group children known →
      known = some categories ∧ set.IsOneOf categories

theorem agrees_group {grouper : Grouper} {children : List Expr} {categories : CategorySet}
    (isOne : set.IsOneOf categories) : Agrees grouper (.group children (some categories)) set := by
  refine ⟨categories, grouper.offers_group _ categories, isOne.1, ?_⟩
  rintro _ _ ⟨⟩
  exact ⟨rfl, isOne⟩

theorem Agrees.fits {grouper : Grouper} (agrees : Agrees grouper expr set) {category : Category}
    (matched : ∃ offered, grouper.Offers expr.toNode offered ∧ category ∈ offered) :
    ∃ offered, set.Fits offered ∧ category ∈ offered := by
  obtain ⟨categories, offers, fits, _⟩ := agrees
  obtain ⟨offered, alsoOffers, member⟩ := matched
  rw [← offers.unique alsoOffers] at member
  exact ⟨categories, fits, member⟩

section Groups

variable {grouper : Grouper} {left middle right : Expr} {known : Option CategorySet}
  {operator x y : SymbolSet}

theorem agrees_triple
    (formed : Formed grouper.Offers Rule.standard
      (.group [left.toNode, middle.toNode, right.toNode] known))
    (leftAgrees : Agrees grouper left x) (middleAgrees : Agrees grouper middle operator)
    (rightAgrees : Agrees grouper right y) (joined : operator.between x y = .ok set) :
    Agrees grouper (.group [left, middle, right] known) set := by
  cases formed with
  | group rule children member length_eq matched _ =>
      obtain ⟨first, second, third, pattern⟩ := List.length_eq_three.mp length_eq.symm
      rw [pattern] at matched
      obtain ⟨leftMatches, middleMatches, rightMatches, -⟩ := matched
      obtain ⟨_, leftFits, inLeft⟩ := leftAgrees.fits leftMatches
      obtain ⟨_, middleFits, inMiddle⟩ := middleAgrees.fits middleMatches
      obtain ⟨_, rightFits, inRight⟩ := rightAgrees.fits rightMatches
      exact agrees_group (Rule.isOneOf_between member pattern leftFits inLeft middleFits inMiddle
        rightFits inRight joined)

theorem agrees_pair
    (formed : Formed grouper.Offers Rule.standard (.group [left.toNode, right.toNode] known))
    (leftAgrees : Agrees grouper left x) (rightAgrees : Agrees grouper right y)
    (leftProper : x.Proper) (applied : x.beside y = .ok set) :
    Agrees grouper (.group [left, right] known) set := by
  cases formed with
  | group rule children member length_eq matched _ =>
      obtain ⟨first, second, pattern⟩ := List.length_eq_two.mp length_eq.symm
      rw [pattern] at matched
      obtain ⟨leftMatches, rightMatches, -⟩ := matched
      obtain ⟨_, leftFits, inLeft⟩ := leftAgrees.fits leftMatches
      obtain ⟨_, rightFits, inRight⟩ := rightAgrees.fits rightMatches
      exact agrees_group (Rule.isOneOf_beside member pattern leftFits inLeft rightFits inRight
        leftProper applied)

end Groups

/-- Every meaning agrees with what grouping offers. -/
theorem agrees_of_means (grammar : language.rules = Rule.standard)
    (regular : ∀ spelling, KeywordTable.Regular (language.lexer.table.variants spelling))
    (means : (language.evaluator (language.buildGraph sources).1).Means expr set)
    (formed : Formed (language.stagedGrouper sources).Offers language.rules expr.toNode) :
    Agrees (language.stagedGrouper sources) expr set := by
  induction means with
  | keyword spelling =>
      refine ⟨_, Grouper.offers_keyword _ spelling,
        KeywordTable.symbols_fits (regular spelling), ?_⟩
      rintro _ _ ⟨⟩
  | number value =>
      refine ⟨_, Grouper.offers_number _ value, SymbolSet.fits_noun _, ?_⟩
      rintro _ _ ⟨⟩
  | reference found named ih =>
      -- The meaning comes from the finished graph, the categories from the parts of the source.
      obtain ⟨categories, offers, fits, _⟩ := ih (formed_of_graph found)
      refine ⟨categories, offers_name_of_graph found offers, fits, ?_⟩
      rintro _ _ ⟨⟩
  | triple operates leftMeans rightMeans joined operatesIh leftIh rightIh =>
      have children := formed.children
      rw [grammar] at formed
      exact agrees_triple formed (leftIh (children _ (by simp [Expr.toNodes])))
        (operatesIh (children _ (by simp [Expr.toNodes])))
        (rightIh (children _ (by simp [Expr.toNodes]))) joined
  | pair leftMeans rightMeans applied leftIh rightIh =>
      have children := formed.children
      rw [grammar] at formed
      exact agrees_pair formed (leftIh (children _ (by simp [Expr.toNodes])))
        (rightIh (children _ (by simp [Expr.toNodes]))) leftMeans.proper applied

/-- The categories that grouping finds for an expression, with names standing for the parts of
their sources. -/
def categoriesOf (language : Language) (sources : Catalog String) (expr : Expr) :
    Except GroupError CategorySet :=
  let grouper := language.stagedGrouper sources
  (grouper.run (grouper.nodeCategories expr.toNode) ∅).1

/-- The meaning that evaluation finds for a name of the graph. -/
def meaningOf (language : Language) (sources : Catalog String) (id : String) :
    Except EvalError SymbolSet :=
  ((language.evaluator (language.buildGraph sources).1).run (.get id) ∅).1

theorem categoriesOf_eq_ok_iff {categories : CategorySet} :
    language.categoriesOf sources expr = .ok categories ↔
      (language.stagedGrouper sources).Offers expr.toNode categories :=
  Resolver.run_eq_ok_iff _ Resolver.faithful_empty

theorem meaningOf_eq_ok_iff (found : (language.buildGraph sources).1.get? id = some expr) :
    language.meaningOf sources id = .ok set ↔
      (language.evaluator (language.buildGraph sources).1).Means expr set :=
  Evaluator.run_get_eq_ok_iff Resolver.faithful_empty found

/-- A name of the graph gets the outcome of its meaning, or fails. -/
theorem entry_of_graph (found : (language.buildGraph sources).1.get? id = some expr) :
    (∃ set, language.meaningOf sources id = .ok set ∧
        (language.interpretSources sources).entry id =
          (Outcome.ofMeaning language.execute (.ok set)).entry) ∨
      ∃ error, (language.interpretSources sources).entry id = (Outcome.failed error).entry := by
  obtain ⟨meaning, accounts, entry⟩ := Evaluator.interpret_entry
    (language.evaluator (language.buildGraph sources).1) language.execute found
  rw [interpretSources_entry_of_graph found, interpret, entry]
  cases meaning with
  | error error => exact .inr ⟨.eval error, rfl⟩
  | ok set =>
      refine .inl ⟨set, ?_, rfl⟩
      exact (Resolver.run_eq_ok_iff _ Resolver.faithful_empty).mpr accounts.settles

section Standard

variable (sources)

theorem agrees_standard (found : (standard.buildGraph sources).1.get? id = some expr)
    (meant : standard.meaningOf sources id = .ok set) :
    Agrees (standard.stagedGrouper sources) expr set :=
  agrees_of_means rfl KeywordTable.regular_standard ((meaningOf_eq_ok_iff found).mp meant)
    (formed_of_graph found)

theorem categories_of_meaning (found : (standard.buildGraph sources).1.get? id = some expr)
    (meant : standard.meaningOf sources id = .ok set) :
    ∃ categories, standard.categoriesOf sources expr = .ok categories ∧
      (∀ category ∈ set.categories, category ∈ categories) ∧
      (∀ children known, expr = .group children known → ∃ stored symbol,
        known = some stored ∧ set = .single symbol ∧ symbol.category ∈ stored) ∧
      (set.noun.isSome = true ↔ .noun ∈ categories) ∧
      (.noun ∈ categories → ∃ formula, set = .single (.noun formula)) := by
  obtain ⟨categories, offers, fits, group⟩ := agrees_standard sources found meant
  refine ⟨categories, categoriesOf_eq_ok_iff.mpr offers, fits.sub, ?_, ?_, fits.noun⟩
  · intro children known same
    obtain ⟨stored, _, symbol, single, member⟩ := group children known same
    exact ⟨categories, symbol, stored, single, member⟩
  · constructor
    · intro isValue
      obtain ⟨formula, noun⟩ := Option.isSome_iff_exists.mp isValue
      exact fits.mem_noun noun
    · intro member
      obtain ⟨formula, rfl⟩ := fits.noun member
      rfl

theorem outcome_of_noun (found : (standard.buildGraph sources).1.get? id = some expr)
    {categories : CategorySet} (categorized : standard.categoriesOf sources expr = .ok categories)
    (member : .noun ∈ categories) :
    (∃ formula value, standard.meaningOf sources id = .ok (.single (.noun formula)) ∧
        (standard.interpretSources sources).entry id =
          (Outcome.value value formula.render).entry) ∨
      ∃ error, (standard.interpretSources sources).entry id = (Outcome.failed error).entry := by
  obtain ⟨set, meant, entry⟩ | failed := entry_of_graph found
  · obtain ⟨others, offers, fits, _⟩ := agrees_standard sources found meant
    cases (categoriesOf_eq_ok_iff.mp categorized).unique offers
    obtain ⟨formula, rfl⟩ := fits.noun member
    cases computed : standard.execute formula with
    | ok value =>
        rw [Outcome.ofMeaning_of_value computed] at entry
        exact .inl ⟨formula, value, meant, entry⟩
    | error error =>
        rw [Outcome.ofMeaning_of_refused computed] at entry
        exact .inr ⟨_, entry⟩
  · exact .inr failed

theorem noun_of_value (found : (standard.buildGraph sources).1.get? id = some expr)
    {value : Float}
    (valued : (standard.interpretSources sources).results.get? id = some (some value)) :
    ∃ categories, standard.categoriesOf sources expr = .ok categories ∧ .noun ∈ categories := by
  have sameResult := congrArg Prod.fst (interpretSources_entry_of_graph found)
  obtain ⟨other, set, formula, alsoFound, means, noun, _⟩ :=
    Evaluator.means_of_value (sameResult.symm.trans valued)
  cases found.symm.trans alsoFound
  obtain ⟨categories, offers, fits, _⟩ :=
    agrees_standard sources found ((meaningOf_eq_ok_iff found).mpr means)
  exact ⟨categories, categoriesOf_eq_ok_iff.mpr offers, fits.mem_noun noun⟩

end Standard

/-- With the standard vocabulary and grammar, grouping and evaluation tell the same of every name
of the graph.  A meaning has no symbol outside of the categories of the expression, the meaning of
a group is one symbol of the categories stored with it, and a value is meant exactly where the
categories have one, with nothing else beside it.  So a name grouped as a value ends with the value
of a formula or with a failure, and no other name ends with a value. -/
theorem standard_meaning_fits_categories (sources : Catalog String) {id : String} {expr : Expr}
    (found : (standard.buildGraph sources).1.get? id = some expr) :
    (∀ set, standard.meaningOf sources id = .ok set →
      ∃ categories, standard.categoriesOf sources expr = .ok categories ∧
        (∀ category ∈ set.categories, category ∈ categories) ∧
        (∀ children known, expr = .group children known → ∃ stored symbol,
          known = some stored ∧ set = .single symbol ∧ symbol.category ∈ stored) ∧
        (set.noun.isSome = true ↔ .noun ∈ categories) ∧
        (.noun ∈ categories → ∃ formula, set = .single (.noun formula))) ∧
    (∀ categories, standard.categoriesOf sources expr = .ok categories → .noun ∈ categories →
      (∃ formula value, standard.meaningOf sources id = .ok (.single (.noun formula)) ∧
        (standard.interpretSources sources).entry id =
          (Outcome.value value formula.render).entry) ∨
      ∃ error, (standard.interpretSources sources).entry id = (Outcome.failed error).entry) ∧
    (∀ value, (standard.interpretSources sources).results.get? id = some (some value) →
      ∃ categories, standard.categoriesOf sources expr = .ok categories ∧
        .noun ∈ categories) := by
  refine ⟨?_, ?_, ?_⟩
  · intro set meant
    exact categories_of_meaning sources found meant
  · intro categories categorized member
    exact outcome_of_noun sources found categorized member
  · intro value valued
    exact noun_of_value sources found valued

/-- A function, its use on a number, and a name that stands for nothing. -/
def squareSources : Catalog String := .ofList [("f", "*~"), ("lost", "z"), ("x", "4 f")]

/-- The expression for the use. -/
def squareOfFour : Expr := .group [.number 4, .keyword " ", .reference "f"] (some {.noun})

/-- The formula of the use. -/
def fourSquared : Formula := .binary .multiply (.number 4) (.number 4)

theorem squareSources_graph :
    (standard.buildGraph squareSources).1.get? "x" = some squareOfFour := by
  decide +kernel

/-- Each of the three sources ends in its own way. -/
theorem squareSources_entries :
    (standard.interpretSources squareSources).entry "f" = Outcome.absent.entry ∧
      (standard.interpretSources squareSources).entry "lost" =
        (Outcome.failed (.group (.unresolvedIdentifier "z"))).entry ∧
      (standard.interpretSources squareSources).entry "x" =
        (Outcome.value 16 "(4 * 4)").entry := by
  decide +kernel

/-- The use is grouped as a value, and a value is what it means and how it ends. -/
theorem squareOfFour_meaning_fits :
    (standard.buildGraph squareSources).1.get? "x" = some squareOfFour ∧
      standard.categoriesOf squareSources squareOfFour = .ok {.noun} ∧
      standard.meaningOf squareSources "x" = .ok (.single (.noun fourSquared)) ∧
      (standard.interpretSources squareSources).entry "x" = (Outcome.value 16 "(4 * 4)").entry ∧
      (∀ category ∈ (SymbolSet.single (.noun fourSquared)).categories,
        category ∈ ({.noun} : CategorySet)) ∧
      (∀ set, standard.meaningOf squareSources "x" = .ok set →
        ∃ formula, set = .single (.noun formula)) ∧
      ((∃ formula value, standard.meaningOf squareSources "x" = .ok (.single (.noun formula)) ∧
          (standard.interpretSources squareSources).entry "x" =
            (Outcome.value value formula.render).entry) ∨
        ∃ error, (standard.interpretSources squareSources).entry "x" =
          (Outcome.failed error).entry) := by
  obtain ⟨fits, outcome, _⟩ := standard_meaning_fits_categories squareSources squareSources_graph
  have categorized : standard.categoriesOf squareSources squareOfFour = .ok {.noun} := rfl
  have meant : standard.meaningOf squareSources "x" = .ok (.single (.noun fourSquared)) := by
    decide +kernel
  obtain ⟨categories, alsoCategorized, within, _, _, value⟩ := fits _ meant
  cases categorized.symm.trans alsoCategorized
  refine ⟨squareSources_graph, categorized, meant, squareSources_entries.2.2, within, ?_,
    outcome {.noun} categorized rfl⟩
  intro set alsoMeant
  cases meant.symm.trans alsoMeant
  exact value rfl

end Language

end Tacit
