import Tacit.Proofs.Isolation
import Tacit.Proofs.Reparsing

/-!
# More rules at the end of a grammar

A source that its grammar folds to one node always has a rule that fits while there is more than
one node left.  Rules that are tried later are then never tried, neither for the source itself nor
for the sources that it names.  So a grammar may be extended at its end without any change for
sources that it groups.
-/

namespace Tacit

namespace Reading

variable {answers : String → Option (Except GroupError CategorySet)} {rules : List Rule}
  {readings after : List Reading}

/-- A rule that is found is found before all rules that come later. -/
theorem firstRule_append (more : List Rule) {rule : Rule}
    (found : (firstRule rules readings).follow answers = some (.ok (some rule, after))) :
    (firstRule (rules ++ more) readings).follow answers = some (.ok (some rule, after)) := by
  induction rules generalizing readings with
  | nil => simp [firstRule] at found
  | cons other rules ih =>
      rw [List.cons_append, firstRule]
      rw [firstRule] at found
      split
      next unfit =>
        rw [if_pos unfit] at found
        exact ih found
      next fitting =>
        rw [if_neg fitting, Inquiry.follow_bind_eq_ok] at found
        obtain ⟨⟨fits, known⟩, asked, rest⟩ := found
        refine Inquiry.follow_bind_eq_ok.mpr ⟨(fits, known), asked, ?_⟩
        cases fits with
        | true => exact rest
        | false => exact ih rest

/-- Looking for a rule keeps the number of readings. -/
theorem length_of_firstRule {rule? : Option Rule}
    (found : (firstRule rules readings).follow answers = some (.ok (rule?, after))) :
    after.length = readings.length := by
  have anything : Invariant (fun _ => True) (fun _ _ => True) (fun _ _ => True) fun _ => True :=
    ⟨fun reading _ => reading.categories.always_trivial, fun _ _ => trivial, fun _ _ _ => trivial⟩
  have spec := (anything.firstRule rules rfl fun _ _ => trivial).of_follow
    (fun _ _ _ => trivial) found
  simpa using congrArg List.length spec.1

/-- Readings that are folded to one are folded alike with more rules. -/
theorem foldFor_append (more : List Rule) {steps : Nat} {reading : Reading}
    (folded : (foldFor rules steps readings).follow answers = some (.ok [reading])) :
    (foldFor (rules ++ more) steps readings).follow answers = some (.ok [reading]) := by
  induction steps generalizing readings with
  | zero => exact folded
  | succ steps ih =>
      have whole := folded
      rw [foldFor, Inquiry.follow_bind_eq_ok] at folded
      obtain ⟨⟨rule?, after⟩, found, rest⟩ := folded
      cases rule? with
      | some rule =>
          rw [foldFor]
          exact Inquiry.follow_bind_eq_ok.mpr ⟨_, firstRule_append more found, ih rest⟩
      | none =>
          -- A rule is missing only where one reading is left, and that one fits no rule at all.
          obtain rfl : after = [reading] := by simpa using rest
          obtain ⟨only, rfl⟩ := List.length_eq_one_iff.mp (length_of_firstRule found).symm
          rw [foldFor_singleton] at whole ⊢
          exact whole

end Reading

namespace Grouper

variable {lexer : Lexer} {rules : List Rule} {graph : Graph} {nodes : List Node}
  {answers : String → Option (Except GroupError CategorySet)}

/-- Tokens are read alike in every grammar. -/
theorem readings_append (more : List Rule)
    (flat : ∀ node ∈ nodes, ∃ token, node = .token token) :
    (Grouper.mk lexer (rules ++ more) graph).readings nodes =
      (Grouper.mk lexer rules graph).readings nodes := by
  refine readings_eq_of_nodeCategories_eq (fun node member => ?_) rfl
  obtain ⟨token, rfl⟩ := flat node member
  cases token <;> rfl

/-- Tokens that are grouped to one node are grouped alike with more rules. -/
theorem reductionToOne_append (more : List Rule)
    (flat : ∀ node ∈ nodes, ∃ token, node = .token token) {node : Node}
    (reduced : ((Grouper.mk lexer rules graph).reductionToOne nodes).follow answers =
      some (.ok node)) :
    ((Grouper.mk lexer (rules ++ more) graph).reductionToOne nodes).follow answers =
      some (.ok node) := by
  rw [reductionToOne, Inquiry.follow_bind_eq_ok] at reduced ⊢
  obtain ⟨remaining, reduces, isOne⟩ := reduced
  refine ⟨remaining, ?_, isOne⟩
  obtain rfl := theOne_eq_ok_iff.mp (Option.some.inj isOne)
  simp only [reduction, Inquiry.follow_bind_eq_ok] at reduces ⊢
  obtain ⟨readings, read, folded, folds, named⟩ := reduces
  refine ⟨readings, ?_, folded, ?_, named⟩
  · rw [readings_append more flat]
    exact read
  · obtain ⟨reading, rest, rfl, _, noRest⟩ :=
      List.map_eq_cons_iff.mp (Except.ok.inj (Option.some.inj named))
    obtain rfl := List.map_eq_nil_iff.mp noRest
    exact Reading.foldFor_append more folds

/-- Tokens that are grouped to one node offer side by side what they offer with more rules. -/
theorem nodeCategories_append (more : List Rule)
    (flat : ∀ node ∈ nodes, ∃ token, node = .token token) {node : Node}
    (settles : (Grouper.mk lexer rules graph).resolver.Settles
      ((Grouper.mk lexer rules graph).reductionToOne nodes) (.ok node))
    {depth : Nat} {categories : CategorySet}
    (offered : ((Grouper.mk lexer rules graph).nodeCategories (.group nodes none)).follow
      ((Grouper.mk lexer rules graph).resolver.within depth) = some (.ok categories)) :
    ((Grouper.mk lexer (rules ++ more) graph).nodeCategories (.group nodes none)).follow
      ((Grouper.mk lexer rules graph).resolver.within depth) = some (.ok categories) := by
  simp only [nodeCategories, Inquiry.follow_bind_eq_ok] at offered ⊢
  obtain ⟨readings, read, folded, folds, first⟩ := offered
  refine ⟨readings, ?_, folded, ?_, first⟩
  · rw [readings_append more flat]
    exact read
  · obtain ⟨expanded, reading, expands, foldedToOne, _⟩ := settles_reductionToOne settles
    have sameReadings := readings_eq_ok_iff.mpr ⟨expanded, expands, rfl⟩
    cases sameReadings.symm.trans (Option.some.inj read)
    have same : Except.ok folded = .ok [reading] :=
      Resolver.Settles.unique ⟨depth, folds⟩ foldedToOne
    cases same
    exact Reading.foldFor_append more folds

end Grouper

namespace Language

variable {language : Language} {sources : Catalog String} {id source : String} {expr : Expr}

/-- The language with more rules at the end of its grammar. -/
def extend (language : Language) (more : List Rule) : Language :=
  { language with rules := language.rules ++ more }

theorem flat_of_stage {isKnown : String → Bool} {children : List Expr}
    (staged : language.stage isKnown source = .ok children) :
    ∀ node ∈ Expr.toNodes children, ∃ token, node = .token token := by
  obtain ⟨tokens, _, parts⟩ := linkedTokens_of_stage staged
  rw [parts]
  intro node member
  obtain ⟨token, _, rfl⟩ := List.mem_map.mp member
  exact ⟨token, rfl⟩

/-- The categories that a name has are the same with more rules. -/
theorem settles_extend (more : List Rule) (clean : (language.buildGraph sources).2.failures = ∅)
    {depth : Nat} {categories : CategorySet}
    (settled : (language.stagedGrouper sources).resolver.within depth id = some (.ok categories)) :
    ((language.extend more).stagedGrouper sources).resolver.Settles (.get id)
      (.ok categories) := by
  -- The depth at which they settle decreases from a name to the names in its source.
  induction depth using Nat.strongRecOn generalizing id categories with
  | ind depth ih =>
      obtain ⟨source, children, earlier, before, named, staged, inside⟩ :=
        staged_of_within settled
      obtain ⟨expr, _, builds⟩ := builds_of_source clean named
      obtain ⟨again, alsoStaged, reduced⟩ := builds.settles
      cases staged.symm.trans alsoStaged
      have found : ((language.extend more).stagedGrouper sources).resolver.items.get? id =
          some (.group children none) := by
        refine ((language.extend more).stagedGraph_get? named).trans ?_
        rw [show (language.extend more).stage sources.contains source = .ok children from staged]
        rfl
      refine (Resolver.settles_get_iff found).mpr ?_
      have offered := Grouper.nodeCategories_append more (flat_of_stage staged) reduced inside
      exact Resolver.settles_of_follow (fun _ _ => ih earlier before) offered

/-- A source that is built is built alike with more rules. -/
theorem builds_extend (more : List Rule) (clean : (language.buildGraph sources).2.failures = ∅)
    (builds : language.Builds sources source (.ok expr)) :
    (language.extend more).Builds sources source (.ok expr) := by
  obtain ⟨children, staged, depth, reduced⟩ := builds.settles
  have follows := Grouper.reductionToOne_append more (flat_of_stage staged) reduced
  have settles : ((language.extend more).stagedGrouper sources).resolver.Settles
      (((language.extend more).stagedGrouper sources).reductionToOne (Expr.toNodes children))
      (.ok expr.toNode) :=
    Resolver.settles_of_follow (fun _ _ => settles_extend more clean) follows
  have stored : ((Except.ok expr.toNode).mapError Error.group >>= expression) = .ok expr := by
    change expression expr.toNode = .ok expr
    rw [expression, expr.ofNode_toNode]
    rfl
  rw [← stored]
  exact .grouped children (.ok expr.toNode) staged settles.accounts

theorem graphEntry_extend (more : List Rule)
    (clean : (language.buildGraph sources).2.failures = ∅) (id : String) :
    (language.extend more).graphEntry sources id = language.graphEntry sources id := by
  cases named : sources.get? id with
  | none =>
      rw [graphEntry_of_not_staged (language.stageAll_entry_of_absent named),
        graphEntry_of_not_staged ((language.extend more).stageAll_entry_of_absent named)]
  | some source =>
      obtain ⟨expr, found, builds⟩ := builds_of_source clean named
      obtain ⟨_, _, _, entry⟩ := graphEntry_of_graph found
      obtain ⟨result, otherBuilds, otherEntry⟩ :=
        (language.extend more).graphEntry_of_source named
      obtain rfl | ⟨_, _, _, impossible⟩ := otherBuilds.alike (builds_extend more clean builds)
      · rw [entry, otherEntry]
      · contradiction

/-- If no source fails, more rules at the end of the grammar change nothing: the graph is the same,
and still no source fails. -/
theorem buildGraph_extend (language : Language) (more : List Rule) {sources : Catalog String}
    (clean : (language.buildGraph sources).2.failures = ∅) :
    (language.extend more).buildGraph sources = language.buildGraph sources ∧
      ((language.extend more).buildGraph sources).2.failures = ∅ := by
  have same : (language.extend more).buildGraph sources = language.buildGraph sources := by
    refine Prod.ext (Catalog.ext_get? fun id => ?_) (Interpretation.ext_entry fun id => ?_)
    · exact congrArg Prod.fst (graphEntry_extend more clean id)
    · exact congrArg Prod.snd (graphEntry_extend more clean id)
  rw [same]
  exact ⟨rfl, clean⟩

/-- A rule that makes a noun of a dyad with an adverb, against the standard grammar, and one for
neighbours that the standard grammar does not fold. -/
def lateRules : List Rule :=
  [⟨[.dyad, .adverb], {.noun}⟩, ⟨[.monad, .monad], {.monad}⟩]

/-- Functions by name keep their groups, although a later rule would make nouns of them. -/
theorem aliasSources_extend :
    (standard.buildGraph aliasSources).2.failures = ∅ ∧
      (standard.extend lateRules).buildGraph aliasSources = standard.buildGraph aliasSources ∧
      ((standard.extend lateRules).buildGraph aliasSources).2.failures = ∅ :=
  ⟨aliasSources_clean, buildGraph_extend standard lateRules aliasSources_clean⟩

end Language

end Tacit
