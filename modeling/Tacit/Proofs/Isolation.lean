import Mathlib.Data.List.Basic
import Tacit.Proofs.Language

/-!
# Sources do not disturb each other

Sources that are added under names which no other source mentions leave all others as they were,
whatever is wrong with them.  Only the name that a cycle carries may change, since it depends on
the name from which the cycle was entered.
-/

namespace Tacit

/-- Equal errors, or two cycles of one kind whatever names they carry. -/
inductive Error.Alike : Error → Error → Prop
  /-- The same error. -/
  | refl (error : Error) : Alike error error
  /-- Two cycles of grouping. -/
  | groupCycle (first second : String) : Alike (.group (.cycle first)) (.group (.cycle second))
  /-- Two cycles of evaluation. -/
  | evalCycle (first second : String) : Alike (.eval (.cycle first)) (.eval (.cycle second))

/-- The same values and formulas, and failures that are alike. -/
def Entry.Alike (left right : Entry) : Prop :=
  left.1 = right.1 ∧ left.2.1 = right.2.1 ∧ Option.Rel Error.Alike left.2.2 right.2.2

theorem Entry.Alike.refl (entry : Entry) : entry.Alike entry := by
  refine ⟨rfl, rfl, ?_⟩
  cases entry.2.2 with
  | none => exact .none
  | some error => exact .some (.refl error)

theorem Outcome.alike_failed {left right : Error} (alike : left.Alike right) :
    (Outcome.failed left).entry.Alike (Outcome.failed right).entry :=
  ⟨rfl, rfl, .some alike⟩

/-- Meanings that are alike have outcomes that are alike. -/
theorem Outcome.alike_ofMeaning {evaluator : Evaluator} (execute : Execution)
    {left right : Except EvalError SymbolSet} (alike : evaluator.resolver.Alike left right) :
    (ofMeaning execute left).entry.Alike (ofMeaning execute right).entry := by
  obtain rfl | ⟨first, second, rfl, rfl⟩ := alike
  · exact .refl _
  · exact alike_failed (.evalCycle first second)

namespace Language

/-- More sources, under names that do not occur in the ones there were. -/
structure Extends (language : Language) (sources more : Catalog String) : Prop where
  /-- All sources stay. -/
  kept : ∀ id source, sources.get? id = some source → more.get? id = some source
  /-- An identifier in a source that names one of the later sources names one of the earlier. -/
  unmentioned : ∀ id source tokens name, sources.get? id = some source →
    language.lexer.tokens source = .ok tokens → .identifier name ∈ tokens →
    more.contains name = true → sources.contains name = true

section Extension

variable {language : Language} {sources more : Catalog String}

theorem Extends.contains (extension : language.Extends sources more) {id : String}
    (contained : sources.contains id = true) : more.contains id = true := by
  obtain ⟨source, found⟩ := Catalog.contains_iff.mp contained
  exact Catalog.contains_iff.mpr ⟨source, extension.kept id source found⟩

theorem Extends.stage_eq (extension : language.Extends sources more) {id source : String}
    (found : sources.get? id = some source) :
    language.stage sources.contains source = language.stage more.contains source := by
  refine stage_congr fun tokens name lexed member => Bool.eq_iff_iff.mpr ⟨?_, ?_⟩
  · exact extension.contains
  · exact extension.unmentioned id source tokens name found lexed member

theorem Extends.stagedGraph_eq (extension : language.Extends sources more) {id : String}
    (contained : sources.contains id = true) :
    (language.stagedGraph sources).get? id = (language.stagedGraph more).get? id := by
  obtain ⟨source, found⟩ := Catalog.contains_iff.mp contained
  rw [language.stagedGraph_get? found, language.stagedGraph_get? (extension.kept id source found),
    extension.stage_eq found]

/-- Grouping cannot tell the sources from more sources. -/
theorem Extends.grouping_agrees (extension : language.Extends sources more) :
    Resolver.AgreeOn (fun id => sources.contains id = true)
      (language.stagedGrouper sources).resolver (language.stagedGrouper more).resolver := by
  refine Grouper.agreeOn language.lexer language.rules (fun _ => extension.stagedGraph_eq) ?_
  intro id expr contained inGraph name mentions
  obtain ⟨source, found⟩ := Catalog.contains_iff.mp contained
  obtain ⟨children, staged, rfl⟩ := staged_of_stagedGraph found inGraph
  have inNodes := (Expr.mentions_toNode _ _).mpr mentions
  obtain ⟨node, member, inNode⟩ := Node.mem_leavesOf.mp inNodes
  exact isKnown_of_stage staged node member name inNode

/-- A source is built to the same among more sources. -/
theorem Extends.builds (extension : language.Extends sources more) {id source : String}
    (found : sources.get? id = some source) {result : Except Error Expr}
    (builds : language.Builds sources source result) : language.Builds more source result := by
  cases builds with
  | unstaged error staged => exact .unstaged error (extension.stage_eq found ▸ staged)
  | grouped children reduced staged accounts =>
      refine .grouped children reduced (extension.stage_eq found ▸ staged) ?_
      have asks := (language.stagedGrouper sources).reductionToOne_asks (isKnown_of_stage staged)
      have same := Grouper.reductionToOne_eq_of_graph language.lexer language.rules
        (language.stagedGraph sources) (language.stagedGraph more) (Expr.toNodes children)
      exact same ▸ extension.grouping_agrees.accounts asks accounts

/-- A source is built to one result, up to the name in a cycle. -/
theorem Builds.alike {source : String} {left right : Except Error Expr}
    (first : language.Builds sources source left)
    (second : language.Builds sources source right) :
    left = right ∨ ∃ leftName rightName, left = .error (.group (.cycle leftName)) ∧
      right = .error (.group (.cycle rightName)) := by
  cases first with
  | unstaged error staged =>
      cases second with
      | unstaged other otherStaged =>
          rw [staged] at otherStaged
          cases otherStaged
          exact .inl rfl
      | grouped children reduced otherStaged accounts =>
          rw [staged] at otherStaged
          contradiction
  | grouped children reduced staged accounts =>
      cases second with
      | unstaged error otherStaged =>
          rw [staged] at otherStaged
          contradiction
      | grouped others again otherStaged otherAccounts =>
          rw [staged] at otherStaged
          cases otherStaged
          obtain rfl | ⟨leftName, rightName, rfl, rfl⟩ := accounts.alike otherAccounts
          · exact .inl rfl
          · exact .inr ⟨leftName, rightName, rfl, rfl⟩

/-- A name is built alike among more sources. -/
theorem Extends.graphEntry_alike (extension : language.Extends sources more) {id : String}
    (contained : sources.contains id = true) :
    language.graphEntry more id = language.graphEntry sources id ∨
      ∃ moreName name,
        language.graphEntry more id = Draft.entryOf (.error (.group (.cycle moreName))) ∧
        language.graphEntry sources id = Draft.entryOf (.error (.group (.cycle name))) := by
  obtain ⟨source, found⟩ := Catalog.contains_iff.mp contained
  obtain ⟨result, builds, entry⟩ := language.graphEntry_of_source found
  obtain ⟨other, otherBuilds, otherEntry⟩ :=
    language.graphEntry_of_source (extension.kept id source found)
  rw [entry, otherEntry]
  obtain rfl | ⟨moreName, name, rfl, rfl⟩ := otherBuilds.alike (extension.builds found builds)
  · exact .inl rfl
  · exact .inr ⟨moreName, name, rfl, rfl⟩

theorem Extends.graph_eq (extension : language.Extends sources more) {id : String}
    (contained : sources.contains id = true) :
    (language.buildGraph sources).1.get? id = (language.buildGraph more).1.get? id := by
  obtain same | ⟨moreName, name, moreEntry, entry⟩ := extension.graphEntry_alike contained
  · exact (congrArg Prod.fst same).symm
  · exact (congrArg Prod.fst entry).trans (congrArg Prod.fst moreEntry).symm

/-- Evaluation cannot tell the sources from more sources. -/
theorem Extends.evaluation_agrees (extension : language.Extends sources more) :
    Resolver.AgreeOn (fun id => sources.contains id = true)
      (language.evaluator (language.buildGraph sources).1).resolver
      (language.evaluator (language.buildGraph more).1).resolver := by
  refine Evaluator.agreeOn language.lexer.table (fun _ => extension.graph_eq) ?_
  intro id expr _ inGraph name mentions
  obtain ⟨source, _, builds⟩ := builds_of_graph inGraph
  exact builds.contains_of_mentions mentions

/-- A name of the graph has the same outcome among more sources. -/
theorem Extends.interpret_alike (extension : language.Extends sources more) {id : String}
    (contained : sources.contains id = true) {expr : Expr}
    (inGraph : (language.buildGraph sources).1.get? id = some expr) :
    ((language.interpret (language.buildGraph more).1).entry id).Alike
      ((language.interpret (language.buildGraph sources).1).entry id) := by
  have inMore := (extension.graph_eq contained).symm.trans inGraph
  obtain ⟨meaning, accounts, outcome⟩ := Evaluator.interpret_entry
    (language.evaluator (language.buildGraph sources).1) language.execute inGraph
  obtain ⟨moreMeaning, moreAccounts, moreOutcome⟩ := Evaluator.interpret_entry
    (language.evaluator (language.buildGraph more).1) language.execute inMore
  have inside : (Inquiry.get id : MeaningInquiry SymbolSet).AsksOnly
      fun name => sources.contains name = true :=
    Inquiry.always_get contained fun _ _ => trivial
  have alike := moreAccounts.alike (extension.evaluation_agrees.accounts inside accounts)
  rw [interpret, interpret, outcome, moreOutcome]
  exact Outcome.alike_ofMeaning language.execute alike

end Extension

/-- Sources added under names that no earlier source mentions leave the value, the formula and the
failure of every earlier name as they were, up to the name that a cycle carries. -/
theorem interpretSources_isolated (language : Language) {sources more : Catalog String}
    (extension : language.Extends sources more) {id : String}
    (contained : sources.contains id = true) :
    (language.interpretSources more).results.get? id =
        (language.interpretSources sources).results.get? id ∧
      (language.interpretSources more).diagnostics.get? id =
        (language.interpretSources sources).diagnostics.get? id ∧
      Option.Rel Error.Alike ((language.interpretSources more).failures.get? id)
        ((language.interpretSources sources).failures.get? id) := by
  change ((language.interpretSources more).entry id).Alike
    ((language.interpretSources sources).entry id)
  obtain same | ⟨moreName, name, moreEntry, entry⟩ := extension.graphEntry_alike contained
  · obtain ⟨source, found⟩ := Catalog.contains_iff.mp contained
    obtain ⟨result, _, entry⟩ := language.graphEntry_of_source found
    rw [entry] at same
    cases result with
    | error error =>
        rw [interpretSources_entry_of_error entry, interpretSources_entry_of_error same]
        exact .refl _
    | ok expr =>
        have inGraph := congrArg Prod.fst entry
        have inMore := congrArg Prod.fst same
        rw [interpretSources_entry_of_graph inGraph, interpretSources_entry_of_graph inMore]
        exact extension.interpret_alike contained inGraph
  · rw [interpretSources_entry_of_error moreEntry, interpretSources_entry_of_error entry]
    exact Outcome.alike_failed (.groupCycle moreName name)

/-- Two sources that need each other. -/
def cyclicSources : Catalog String := .ofList [("x", "y+y"), ("y", "x")]

/-- The same with a source that cannot be read and one that needs it. -/
def disturbedSources : Catalog String :=
  .ofList [("a", "!"), ("b", "x+a"), ("x", "y+y"), ("y", "x")]

theorem cyclicSources_isolated :
    standard.Extends cyclicSources disturbedSources ∧
      (standard.interpretSources disturbedSources).results.get? "x" =
        (standard.interpretSources cyclicSources).results.get? "x" ∧
      (standard.interpretSources disturbedSources).diagnostics.get? "x" =
        (standard.interpretSources cyclicSources).diagnostics.get? "x" ∧
      Option.Rel Error.Alike ((standard.interpretSources disturbedSources).failures.get? "x")
        ((standard.interpretSources cyclicSources).failures.get? "x") := by
  have listed : ∀ id source, cyclicSources.get? id = some source →
      id = "x" ∧ source = "y+y" ∨ id = "y" ∧ source = "x" := by
    intro id source found
    have member : (id, source) ∈ [("x", "y+y"), ("y", "x")] := Catalog.get?_eq_some_iff.mp found
    simpa using member
  have extension : standard.Extends cyclicSources disturbedSources := by
    constructor
    · intro id source found
      obtain ⟨rfl, rfl⟩ | ⟨rfl, rfl⟩ := listed id source found
      · rfl
      · rfl
    · intro id source tokens name found lexed member _
      obtain ⟨rfl, rfl⟩ | ⟨rfl, rfl⟩ := listed id source found
      · have spelled : standard.lexer.tokens "y+y" =
            .ok [.identifier "y", .keyword "+", .identifier "y"] := by decide +kernel
        cases spelled.symm.trans lexed
        obtain rfl : name = "y" := by simpa using member
        rfl
      · have spelled : standard.lexer.tokens "x" = .ok [.identifier "x"] := by decide +kernel
        cases spelled.symm.trans lexed
        obtain rfl : name = "x" := by simpa using member
        rfl
  exact ⟨extension, interpretSources_isolated standard extension rfl⟩

end Language

end Tacit
