import Mathlib.Data.Fin.VecNotation
import Mathlib.Data.List.FinRange
import Tacit.Proofs.NormalForm

/-!
# Grouping looks at categories only

Nodes whose categories are known are folded without a look at the nodes themselves.  What is made
of them can therefore be drawn with places in their stead: an outline, which the categories and the
grammar determine.  Reduction fills the places with the nodes in their order.  So nodes may be
exchanged for others of the same categories, and a stub can stand in for any of them.
-/

namespace Tacit

/-- What grouping makes of nodes in order, with places in the stead of the nodes. -/
inductive Outline (count : Nat) where
  /-- The place of a node. -/
  | place (index : Fin count)
  /-- A group that a rule makes. -/
  | group (children : List (Outline count)) (categories : CategorySet)

namespace Outline

variable {count : Nat}

mutual

/-- The node of an outline whose places are filled. -/
def fill (nodes : Fin count → Node) : Outline count → Node
  | place index => nodes index
  | group children categories => .group (fillAll nodes children) (some categories)

/-- The nodes of outlines whose places are filled. -/
def fillAll (nodes : Fin count → Node) : List (Outline count) → List Node
  | [] => []
  | outline :: rest => outline.fill nodes :: fillAll nodes rest

end

mutual

/-- The places of an outline, from left to right. -/
def places : Outline count → List (Fin count)
  | place index => [index]
  | group children _ => placesOf children

/-- The places of outlines, from left to right. -/
def placesOf : List (Outline count) → List (Fin count)
  | [] => []
  | outline :: rest => outline.places ++ placesOf rest

end

theorem fillAll_eq_map (nodes : Fin count → Node) (outlines : List (Outline count)) :
    fillAll nodes outlines = outlines.map (fill nodes) := by
  induction outlines with
  | nil => rfl
  | cons outline rest ih => rw [fillAll, ih, List.map_cons]

@[simp]
theorem fill_place (nodes : Fin count → Node) (index : Fin count) :
    (place index).fill nodes = nodes index := rfl

@[simp]
theorem fill_group (nodes : Fin count → Node) (children : List (Outline count))
    (categories : CategorySet) : (group children categories).fill nodes =
      .group (children.map (fill nodes)) (some categories) := by
  rw [fill, fillAll_eq_map]

theorem placesOf_append (left right : List (Outline count)) :
    placesOf (left ++ right) = placesOf left ++ placesOf right := by
  induction left with
  | nil => rfl
  | cons outline rest ih => rw [List.cons_append, placesOf, placesOf, ih, List.append_assoc]

theorem placesOf_map_place (indices : List (Fin count)) :
    placesOf (indices.map place) = indices := by
  induction indices with
  | nil => rfl
  | cons index rest ih => rw [List.map_cons, placesOf, ih, places, List.singleton_append]

end Outline

namespace Rule

variable {count : Nat} {offers : Node → CategorySet → Prop} {rules : List Rule}

section Selection

variable {nodes : List Node} {offered : List CategorySet}

theorem matches_of_fitsFront (offering : List.Forall₂ offers nodes offered)
    {pattern : List Category} (fits : fitsFront pattern offered = true) :
    Matches offers pattern nodes := by
  induction pattern generalizing nodes offered with
  | nil => trivial
  | cons category pattern ih =>
      cases offering with
      | nil => contradiction
      | cons first rest =>
          obtain ⟨member, fitsRest⟩ := Bool.and_eq_true_iff.mp fits
          exact ⟨⟨_, first, of_decide_eq_true member⟩, ih rest fitsRest⟩

theorem misses_of_fitsFront (offering : List.Forall₂ offers nodes offered)
    {pattern : List Category} (unfit : fitsFront pattern offered = false) :
    Misses offers pattern nodes := by
  induction pattern generalizing nodes offered with
  | nil => contradiction
  | cons category pattern ih =>
      cases offering with
      | nil => trivial
      | cons first rest =>
          refine ⟨_, first, fun member => ih rest ?_⟩
          simpa only [fitsFront, member, decide_true, Bool.true_and] using unfit

/-- Where all categories are known, the first rule that folds them is the one selected. -/
theorem selects_find? (rules : List Rule) (offering : List.Forall₂ offers nodes offered) :
    Selects offers rules nodes (rules.find? fun rule => rule.folds offered) := by
  have sameLength := offering.length_eq
  induction rules with
  | nil => exact List.forall_mem_nil _
  | cons rule rules ih =>
      rw [List.find?_cons]
      cases folds : rule.folds offered with
      | true =>
          simp only [Rule.folds, Bool.and_eq_true, Bool.not_eq_true', Bool.or_eq_false_iff,
            decide_eq_false_iff_not, Nat.not_lt] at folds
          obtain ⟨⟨two, short⟩, fits⟩ := folds
          exact ⟨[], rules, rfl, List.forall_mem_nil _, two, sameLength ▸ short,
            matches_of_fitsFront offering fits⟩
      | false =>
          refine Selects.cons ?_ ih
          simp only [Rule.folds, Bool.and_eq_false_iff, Bool.not_eq_false', Bool.or_eq_true,
            decide_eq_true_eq] at folds
          obtain (short | long) | unfit := folds
          · exact .inl short
          · exact .inr (.inl (sameLength ▸ long))
          · exact .inr (.inr (misses_of_fitsFront offering unfit))

end Selection

/-- The parts of an outline in the making, with their categories, whose first a rule has folded. -/
def foldOutlines (rule : Rule) (parts : List (Outline count × CategorySet)) :
    List (Outline count × CategorySet) :=
  (.group ((parts.take rule.pattern.length).map Prod.fst) rule.result, rule.result) ::
    parts.drop rule.pattern.length

/-- Fold parts of an outline at most `limit` times. -/
def outlineFor (rules : List Rule) :
    Nat → List (Outline count × CategorySet) → List (Outline count × CategorySet)
  | 0, parts => parts
  | limit + 1, parts =>
      match rules.find? fun rule => rule.folds (parts.map Prod.snd) with
      | none => parts
      | some rule => outlineFor rules limit (rule.foldOutlines parts)

/-- What a grammar makes of nodes that have these categories. -/
def outline (rules : List Rule) (categories : Fin count → CategorySet) : List (Outline count) :=
  (outlineFor rules count (List.ofFn fun index => (.place index, categories index))).map Prod.fst

section Outlines

variable {parts : List (Outline count × CategorySet)} {nodes : Fin count → Node}

theorem placesOf_foldOutlines (rule : Rule) (parts : List (Outline count × CategorySet)) :
    Outline.placesOf ((rule.foldOutlines parts).map Prod.fst) =
      Outline.placesOf (parts.map Prod.fst) := by
  rw [foldOutlines, List.map_cons, Outline.placesOf, Outline.places, ← Outline.placesOf_append,
    ← List.map_append, List.take_append_drop]

/-- Folding keeps the places in their order. -/
theorem placesOf_outlineFor (rules : List Rule) (limit : Nat)
    (parts : List (Outline count × CategorySet)) :
    Outline.placesOf ((outlineFor rules limit parts).map Prod.fst) =
      Outline.placesOf (parts.map Prod.fst) := by
  fun_induction outlineFor rules limit parts with
  | case1 parts => rfl
  | case2 limit parts unfolded => rfl
  | case3 limit parts rule found ih => rw [ih, placesOf_foldOutlines]

/-- Every place is in the outline once, in order. -/
theorem placesOf_outline (rules : List Rule) (categories : Fin count → CategorySet) :
    Outline.placesOf (outline rules categories) = List.finRange count := by
  rw [outline, placesOf_outlineFor, List.map_ofFn, List.ofFn_eq_map]
  exact Outline.placesOf_map_place _

/-- Filling the parts and folding them comes to the same in either order. -/
theorem map_fill_foldOutlines (rule : Rule) (nodes : Fin count → Node)
    (parts : List (Outline count × CategorySet)) :
    (rule.foldOutlines parts).map (fun part => part.1.fill nodes) =
      rule.foldFront (parts.map fun part => part.1.fill nodes) := by
  simp [foldOutlines, foldFront, List.map_take, List.map_drop, Function.comp_def]

theorem offering_foldOutlines
    (group : ∀ children categories, offers (.group children (some categories)) categories)
    (rule : Rule) (offering : ∀ part ∈ parts, offers (part.1.fill nodes) part.2) :
    ∀ part ∈ rule.foldOutlines parts, offers (part.1.fill nodes) part.2 := by
  refine List.forall_mem_cons.mpr ⟨?_, fun part inRest => ?_⟩
  · rw [Outline.fill_group]
    exact group _ rule.result
  · exact offering part (List.mem_of_mem_drop inRest)

/-- Nodes of known categories take steps to their outline, and no further. -/
theorem chain_outlineFor (rules : List Rule)
    (group : ∀ children categories, offers (.group children (some categories)) categories)
    (offering : ∀ part ∈ parts, offers (part.1.fill nodes) part.2) {limit : Nat}
    (enough : parts.length ≤ limit) :
    ∃ steps, Chain offers rules steps (parts.map fun part => part.1.fill nodes)
        ((outlineFor rules limit parts).map fun part => part.1.fill nodes) ∧
      ∀ rule ∈ rules, rule.PassedOver offers
        ((outlineFor rules limit parts).map fun part => part.1.fill nodes) := by
  induction limit generalizing parts with
  | zero =>
      obtain rfl : parts = [] := List.eq_nil_of_length_eq_zero (by omega)
      refine ⟨0, .stop _, fun rule _ => ?_⟩
      rw [PassedOver, outlineFor, List.map_nil, List.length_nil]
      omega
  | succ limit ih =>
      have selects := selects_find? rules (List.forall₂_map_left_iff.mpr
        (List.forall₂_map_right_iff.mpr (List.forall₂_same.mpr offering)))
      rw [outlineFor]
      cases found : rules.find? fun rule => rule.folds (parts.map Prod.snd) with
      | none =>
          rw [found] at selects
          exact ⟨0, .stop _, selects⟩
      | some rule =>
          rw [found] at selects
          have step := selects.length_foldFront_lt
          rw [← map_fill_foldOutlines, List.length_map, List.length_map] at step
          obtain ⟨steps, chain, stuck⟩ :=
            ih (offering_foldOutlines group rule offering) (by omega)
          refine ⟨steps + 1, .fold ⟨rule, selects, ?_⟩ chain, stuck⟩
          exact map_fill_foldOutlines rule nodes parts

end Outlines

end Rule

namespace Grouper

variable {count : Nat} {categories : Fin count → CategorySet}

/-- Nodes with known categories are reduced to the outline of these categories, filled with the
nodes. -/
theorem answerAfter_reduction_eq_outline (grouper : Grouper) (asked : List Query)
    {nodes : Fin count → Node} (plain : ∀ index text, nodes index ≠ .token (.search text))
    (offering : ∀ index, grouper.OffersAfter asked (nodes index) (categories index)) :
    grouper.answerAfter asked (.reduction (List.ofFn nodes)) =
      .ok ((Rule.outline grouper.rules categories).map (Outline.fill nodes)) := by
  rw [offersAfter_eq] at offering
  have noSearch : ∀ text, Node.token (.search text) ∉ List.ofFn nodes := by
    intro text member
    obtain ⟨index, isSearch⟩ := List.mem_ofFn.mp member
    exact plain index text isSearch
  have partsOffer : ∀ part ∈ List.ofFn fun index => (Outline.place index, categories index),
      grouper.Offers (part.1.fill nodes) part.2 := by
    intro part member
    obtain ⟨index, rfl⟩ := List.mem_ofFn.mp member
    exact offering index
  obtain ⟨steps, chain, stuck⟩ := Rule.chain_outlineFor grouper.rules
    grouper.offers_group partsOffer (Nat.le_of_eq (List.length_ofFn ..))
  have start : (List.ofFn fun index => (Outline.place index, categories index)).map
      (fun part => part.1.fill nodes) = List.ofFn nodes := by
    rw [List.map_ofFn]
    rfl
  have finish : (Rule.outline grouper.rules categories).map (Outline.fill nodes) =
      (Rule.outlineFor grouper.rules count
        (List.ofFn fun index => (Outline.place index, categories index))).map
          fun part => part.1.fill nodes := by
    rw [Rule.outline, List.map_map]
    rfl
  rw [start, ← finish] at chain
  rw [← finish] at stuck
  exact answerAfter_eq_ok_iff.mpr (settles_reduction_iff.mpr
    ⟨List.ofFn nodes, steps, Lexer.expand_eq_self noSearch, chain, stuck⟩)

/-- Nodes, with stubs of the same categories in the stead of some. -/
def stubbed (nodes : Fin count → Node) (categories : Fin count → CategorySet)
    (stubs : Fin count → Option UInt64) (index : Fin count) : Node :=
  (stubs index).elim (nodes index) (.stub (categories index))

theorem offersAfter_stubbed {grouper : Grouper} {asked : List Query} {nodes : Fin count → Node}
    (offering : ∀ index, grouper.OffersAfter asked (nodes index) (categories index))
    (stubs : Fin count → Option UInt64) (index : Fin count) :
    grouper.OffersAfter asked (stubbed nodes categories stubs index) (categories index) := by
  rw [stubbed]
  cases stubs index with
  | none => exact offering index
  | some number => exact answerAfter_eq_ok_iff.mpr (Resolver.settles_done _)

theorem stubbed_ne_search {nodes : Fin count → Node}
    (plain : ∀ index text, nodes index ≠ .token (.search text))
    (stubs : Fin count → Option UInt64) (index : Fin count) (text : String) :
    stubbed nodes categories stubs index ≠ .token (.search text) := by
  rw [stubbed]
  cases stubs index with
  | none => exact plain index text
  | some number => exact Node.noConfusion

/-- Two sequences without search texts, whose nodes have the same categories one by one, are
reduced to the same outline by groupers with one grammar, whatever each of them was asked before.
The outline has every place once and in order, and each reduction fills the places with its own
nodes.  In particular any nodes can be exchanged for stubs of their categories. -/
theorem reduction_sees_categories_only (left right : Grouper)
    (sameGrammar : left.rules = right.rules) (leftAsked rightAsked : List Query)
    {xs ys : Fin count → Node}
    (leftPlain : ∀ index text, xs index ≠ .token (.search text))
    (rightPlain : ∀ index text, ys index ≠ .token (.search text))
    (leftOffers : ∀ index,
      left.answerAfter leftAsked (.categories (xs index)) = .ok (categories index))
    (rightOffers : ∀ index,
      right.answerAfter rightAsked (.categories (ys index)) = .ok (categories index)) :
    ∃ outlines : List (Outline count), Outline.placesOf outlines = List.finRange count ∧
      left.answerAfter leftAsked (.reduction (List.ofFn xs)) =
        .ok (outlines.map (Outline.fill xs)) ∧
      right.answerAfter rightAsked (.reduction (List.ofFn ys)) =
        .ok (outlines.map (Outline.fill ys)) ∧
      ∀ stubs, left.answerAfter leftAsked (.reduction (List.ofFn (stubbed xs categories stubs))) =
        .ok (outlines.map (Outline.fill (stubbed xs categories stubs))) := by
  refine ⟨Rule.outline left.rules categories, Rule.placesOf_outline left.rules categories,
    left.answerAfter_reduction_eq_outline leftAsked leftPlain leftOffers, ?_, fun stubs => ?_⟩
  · rw [sameGrammar]
    exact right.answerAfter_reduction_eq_outline rightAsked rightPlain rightOffers
  · exact left.answerAfter_reduction_eq_outline leftAsked (stubbed_ne_search leftPlain stubs)
      (offersAfter_stubbed leftOffers stubs)

/-- The standard language over a graph with a name for `-~`, whose parts are not grouped yet. -/
def namedReflex : Grouper :=
  Language.standard.grouper (.ofList [("f", .group [.keyword "-", .keyword "~"] none)])

/-- The categories of a function of one or two operands, of such a function, and of a value. -/
def trainCategories : Fin 3 → CategorySet := ![{.monad, .dyad}, {.monad, .dyad}, {.noun}]

/-- A named function, a keyword and a number. -/
def namedTrain : Fin 3 → Node :=
  ![.token (.reference "f"), .token (.keyword "/"), .token (.number 5)]

/-- A keyword, a stub and an open group around a stub. -/
def sketchedTrain : Fin 3 → Node :=
  ![.token (.keyword "<."), .stub {.monad, .dyad} 7, .group [.stub {.noun} 8] none]

theorem namedTrain_categories (index : Fin 3) :
    namedReflex.answerAfter [.categories (.token (.reference "lost"))]
      (.categories (namedTrain index)) = .ok (trainCategories index) := by
  revert index
  decide +kernel

theorem sketchedTrain_categories (index : Fin 3) :
    (Language.standard.grouper ∅).answerAfter [] (.categories (sketchedTrain index)) =
      .ok (trainCategories index) := by
  revert index
  decide +kernel

theorem namedTrain_plain (index : Fin 3) (text : String) :
    namedTrain index ≠ .token (.search text) := by
  revert index
  simp [Fin.forall_fin_succ, namedTrain]

theorem sketchedTrain_plain (index : Fin 3) (text : String) :
    sketchedTrain index ≠ .token (.search text) := by
  revert index
  simp [Fin.forall_fin_succ, sketchedTrain]

/-- The named function and its sketch are folded alike, over different graphs. -/
theorem namedTrain_folds_as_sketched :
    (∀ index, namedReflex.answerAfter [.categories (.token (.reference "lost"))]
      (.categories (namedTrain index)) = .ok (trainCategories index)) ∧
    (∀ index, (Language.standard.grouper ∅).answerAfter []
      (.categories (sketchedTrain index)) = .ok (trainCategories index)) ∧
    ∃ outlines : List (Outline 3), Outline.placesOf outlines = [0, 1, 2] ∧
      namedReflex.answerAfter [.categories (.token (.reference "lost"))]
        (.reduction (List.ofFn namedTrain)) = .ok (outlines.map (Outline.fill namedTrain)) ∧
      (Language.standard.grouper ∅).answerAfter [] (.reduction (List.ofFn sketchedTrain)) =
        .ok (outlines.map (Outline.fill sketchedTrain)) := by
  obtain ⟨outlines, inOrder, named, sketched, _⟩ :=
    reduction_sees_categories_only namedReflex (Language.standard.grouper ∅) rfl
      [.categories (.token (.reference "lost"))] [] namedTrain_plain sketchedTrain_plain
      namedTrain_categories sketchedTrain_categories
  exact ⟨namedTrain_categories, sketchedTrain_categories, outlines, inOrder, named, sketched⟩

end Grouper

end Tacit
