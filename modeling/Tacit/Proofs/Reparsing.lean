import Tacit.Proofs.Language

/-!
# Parsing over the finished graph

A graph is built over the parts of all sources before any of them is grouped; a source is parsed
over finished expressions.  If no source fails, both give the same expression.  The names in a
source are known alike, and the categories of a name come from the parts of its source or from its
expression: these agree wherever the former are found, because a group keeps its categories and
a single name is passed on.
-/

namespace Tacit

namespace Language

variable {language : Language} {sources : Catalog String} {id source : String} {expr : Expr}

/-- Grouping over the finished expressions. -/
abbrev finishedGrouper (language : Language) (sources : Catalog String) : Grouper :=
  language.grouper (language.buildGraph sources).1

/-- A source that does not fail is built. -/
theorem builds_of_source (clean : (language.buildGraph sources).2.failures = ∅)
    (named : sources.get? id = some source) :
    ∃ expr, (language.buildGraph sources).1.get? id = some expr ∧
      language.Builds sources source (.ok expr) := by
  obtain ⟨result, builds, entry⟩ := language.graphEntry_of_source named
  obtain ⟨stored, said⟩ := Prod.mk.inj entry
  cases result with
  | ok expr => exact ⟨expr, stored, builds⟩
  | error error =>
      have failed : (language.buildGraph sources).2.failures.get? id = some error :=
        congrArg (fun entry => entry.2.2) said
      rw [clean] at failed
      simp at failed

theorem contains_graph (clean : (language.buildGraph sources).2.failures = ∅) :
    (language.buildGraph sources).1.contains = sources.contains := by
  funext id
  rw [Bool.eq_iff_iff, Catalog.contains_iff, Catalog.contains_iff]
  constructor
  · rintro ⟨expr, found⟩
    obtain ⟨source, named, _⟩ := builds_of_graph found
    exact ⟨source, named⟩
  · rintro ⟨source, named⟩
    obtain ⟨expr, found, _⟩ := builds_of_source clean named
    exact ⟨expr, found⟩

theorem staged_of_within {depth : Nat} {categories : CategorySet}
    (settled : (language.stagedGrouper sources).resolver.within depth id = some (.ok categories)) :
    ∃ source children earlier, earlier < depth ∧ sources.get? id = some source ∧
      language.stage sources.contains source = .ok children ∧
      ((language.stagedGrouper sources).nodeCategories
        (.group (Expr.toNodes children) none)).follow
          ((language.stagedGrouper sources).resolver.within earlier) = some (.ok categories) := by
  obtain ⟨item, earlier, before, found, inside⟩ := Resolver.item_of_within settled
  have inStaged : (language.stagedGraph sources).get? id = some item := found
  cases named : sources.get? id with
  | none =>
      have absent : (language.stageAll sources).made.get? id = none :=
        congrArg Prod.fst (language.stageAll_entry_of_absent named)
      rw [stagedGraph, Catalog.get?_map, absent] at inStaged
      contradiction
  | some source =>
      obtain ⟨children, staged, rfl⟩ := staged_of_stagedGraph named inStaged
      exact ⟨source, children, earlier, before, rfl, staged, inside⟩

/-- The categories that a name has by the parts of its source it also has by its expression. -/
theorem settles_finished (clean : (language.buildGraph sources).2.failures = ∅) {depth : Nat}
    {categories : CategorySet}
    (settled : (language.stagedGrouper sources).resolver.within depth id = some (.ok categories)) :
    (language.finishedGrouper sources).resolver.Settles (.get id) (.ok categories) := by
  -- The depth at which the parts settle decreases along a chain of names.
  induction depth using Nat.strongRecOn generalizing id categories with
  | ind depth ih =>
      obtain ⟨source, children, earlier, before, named, staged, inside⟩ :=
        staged_of_within settled
      obtain ⟨expr, found, builds⟩ := builds_of_source clean named
      refine (Grouper.offers_reference found).mpr ?_
      obtain ⟨name, isName⟩ | ⟨others, offers⟩ :=
        Grouper.offers_of_formed (formed_of_graph found) language.lexer
      · -- A source that is a single name has nothing but the name to look up.
        obtain ⟨again, alsoStaged, sameLeaves⟩ := builds.leaves_eq
        cases staged.symm.trans alsoStaged
        rw [isName] at sameLeaves
        have alone : Expr.toNodes children = [.token (.reference name)] := sameLeaves.symm
        rw [alone, Grouper.nodeCategories_reference, Inquiry.follow_get] at inside
        rw [isName]
        exact ih earlier before inside
      · -- A group keeps its categories, and a keyword or a number has its own.
        obtain ⟨again, alsoStaged, settles⟩ := builds.settles
        cases staged.symm.trans alsoStaged
        have whole := Grouper.offers_of_reductionToOne settles (offers _)
        have same := whole.unique ⟨earlier, inside⟩
        rw [← same]
        exact offers _

/-- If no source fails, parsing a source over the graph of all sources gives the expression that
the graph has of it. -/
theorem parse_eq_graph (clean : (language.buildGraph sources).2.failures = ∅)
    (named : sources.get? id = some source) :
    ∃ expr, (language.buildGraph sources).1.get? id = some expr ∧
      language.parse (language.buildGraph sources).1 source = .ok expr := by
  obtain ⟨expr, found, builds⟩ := builds_of_source clean named
  refine ⟨expr, found, ?_⟩
  obtain ⟨children, staged, depth, reduced⟩ := builds.settles
  obtain ⟨tokens, linked, parts⟩ := linkedTokens_of_stage staged
  have finished : (language.finishedGrouper sources).resolver.Settles
      ((language.finishedGrouper sources).reductionToOne (tokens.map .token))
      (.ok expr.toNode) := by
    rw [← parts, finishedGrouper, grouper,
      Grouper.reductionToOne_eq_of_graph _ _ _ (language.stagedGraph sources)]
    exact Resolver.settles_of_follow (fun _ _ => settles_finished clean) reduced
  have run := (Resolver.run_eq_ok_iff _ Resolver.faithful_empty).mpr finished
  have stored : expression expr.toNode = .ok expr := by
    rw [expression, expr.ofNode_toNode]
    rfl
  rw [parse, contains_graph clean, linked]
  refine bind_eq_ok_iff.mpr ⟨tokens, rfl, bind_eq_ok_iff.mpr ⟨expr.toNode, ?_, stored⟩⟩
  exact mapError_eq_ok_iff.mpr run

/-- Functions that are other functions by name, and two names that only name each other. -/
def aliasSources : Catalog String :=
  .ofList [("a", "b"), ("b", "a"), ("f", "*~"), ("g", "f"), ("h", "g~")]

theorem aliasSources_clean : (standard.buildGraph aliasSources).2.failures = ∅ :=
  Catalog.ext (by decide +kernel)

theorem aliasSources_parse :
    (standard.buildGraph aliasSources).2.failures = ∅ ∧ aliasSources.get? "h" = some "g~" ∧
      ∃ expr, (standard.buildGraph aliasSources).1.get? "h" = some expr ∧
        standard.parse (standard.buildGraph aliasSources).1 "g~" = .ok expr := by
  have named : aliasSources.get? "h" = some "g~" := rfl
  exact ⟨aliasSources_clean, named, parse_eq_graph aliasSources_clean named⟩

end Language

end Tacit
