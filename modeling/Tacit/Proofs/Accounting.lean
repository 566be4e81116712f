import Tacit.Proofs.Soundness

/-!
# Every source is accounted for

Sources are staged, then grouped, then interpreted, and each of these may end with a failure.  The
notes of all three come together in one interpretation, which says exactly one thing of every
source: that it has a value, that it failed, or that it stands for a function.
-/

namespace Tacit

/-- A formula has a result if it keeps within the limits, and the result is its value. -/
theorem Formula.run_eq_ok_iff {limits : Limits} {formula : Formula} {value : Float} :
    Formula.run limits formula = .ok value ↔
      formula.depth ≤ limits.depth.toNat ∧ formula.value = value ∧
        (limits.rejectNonFinite = true → value.isFinite = true) := by
  rw [Formula.run]
  split
  next deep =>
    constructor
    · intro impossible
      contradiction
    · intro kept
      omega
  next shallow =>
    dsimp only
    split
    next refused =>
      obtain ⟨rejects, notFinite⟩ : limits.rejectNonFinite = true ∧
        formula.value.isFinite = false := by simpa using refused
      constructor
      · intro impossible
        contradiction
      · rintro ⟨_, rfl, finite⟩
        rw [finite rejects] at notFinite
        contradiction
    next admitted =>
      constructor
      · intro computed
        cases computed
        refine ⟨by omega, rfl, fun rejects => ?_⟩
        simpa [rejects] using admitted
      · rintro ⟨_, rfl, _⟩
        rfl

/-- The three ways in which a name can end. -/
inductive Fate where
  /-- It has a value. -/
  | value
  /-- It failed. -/
  | failure
  /-- It stands for a function. -/
  | function
  deriving DecidableEq

/-- How each of them shows: in what there is of a name among the results, the diagnostics and the
failures. -/
def Fate.Shows (interpretation : Interpretation) (id : String) : Fate → Prop
  | .value => (∃ value, interpretation.results.get? id = some (some value)) ∧
      interpretation.diagnostics.contains id = true ∧
      interpretation.failures.contains id = false
  | .failure => interpretation.results.get? id = some none ∧
      interpretation.failures.contains id = true ∧
      interpretation.diagnostics.contains id = false
  | .function => interpretation.results.get? id = some none ∧
      interpretation.failures.contains id = false ∧
      interpretation.diagnostics.contains id = false

/-- The way in which a name with this outcome ends. -/
def Outcome.fate : Outcome → Fate
  | .value _ _ => .value
  | .absent => .function
  | .failed _ => .failure

/-- An outcome shows as its own fate and as no other. -/
theorem Fate.shows_iff {interpretation : Interpretation} {id : String} {outcome : Outcome}
    (entry : interpretation.entry id = outcome.entry) (fate : Fate) :
    fate.Shows interpretation id ↔ fate = outcome.fate := by
  cases outcome <;> cases fate <;>
    simp_all [Interpretation.entry, Outcome.entry, Outcome.fate, Shows, Catalog.contains]

namespace Language

variable {language : Language} {sources : Catalog String} {id source : String}

/-- What an outcome rests on: the meaning of the name, and for a value also the formula in it. -/
def Justifies (language : Language) (sources : Catalog String) (id : String) : Outcome → Prop
  | .value result text => ∃ set formula, language.meaningOf sources id = .ok set ∧
      set.noun = some formula ∧ language.execute formula = .ok result ∧ text = formula.render
  | .absent => ∃ set, language.meaningOf sources id = .ok set ∧ set.noun = none
  | .failed _ => True

theorem justifies_ofMeaning {set : SymbolSet} (meant : language.meaningOf sources id = .ok set) :
    language.Justifies sources id (.ofMeaning language.execute (.ok set)) := by
  rw [Outcome.ofMeaning]
  split
  next noValue => exact ⟨set, meant, noValue⟩
  next formula isValue =>
    split
    next result computed => exact ⟨set, formula, meant, isValue, computed, rfl⟩
    next => trivial

/-- Every source has an outcome that rests on its meaning. -/
theorem outcome_of_source (language : Language) (found : sources.get? id = some source) :
    ∃ outcome, language.Justifies sources id outcome ∧
      (language.interpretSources sources).entry id = outcome.entry := by
  obtain ⟨result, _, built⟩ := language.graphEntry_of_source found
  cases result with
  | error error => exact ⟨.failed error, trivial, interpretSources_entry_of_error built⟩
  | ok expr =>
      have inGraph : (language.buildGraph sources).1.get? id = some expr := congrArg Prod.fst built
      obtain ⟨set, meant, entry⟩ | ⟨error, entry⟩ := entry_of_graph inGraph
      · exact ⟨_, justifies_ofMeaning meant, entry⟩
      · exact ⟨.failed error, trivial, entry⟩

/-- Nothing is said of a name without source. -/
theorem interpretSources_entry_of_absent (language : Language)
    (absent : sources.get? id = none) :
    (language.interpretSources sources).entry id = Entry.nothing :=
  interpretSources_entry_of_not_built
    (graphEntry_of_not_staged (language.stageAll_entry_of_absent absent))

theorem results_contains (language : Language) (sources : Catalog String) (id : String) :
    (language.interpretSources sources).results.contains id = sources.contains id := by
  rw [Catalog.contains, Catalog.contains]
  cases found : sources.get? id with
  | none =>
      have silent := congrArg Prod.fst (language.interpretSources_entry_of_absent found)
      exact congrArg Option.isSome silent
  | some source =>
      obtain ⟨outcome, _, entry⟩ := language.outcome_of_source found
      have result := congrArg (fun entry : Entry => entry.1.isSome) entry
      cases outcome <;> exact result

/-- Behind a value there are the meaning and the formula that justify it. -/
theorem Justifies.of_value {outcome : Outcome} (justified : language.Justifies sources id outcome)
    (entry : (language.interpretSources sources).entry id = outcome.entry) {value : Float}
    (valued : (language.interpretSources sources).results.get? id = some (some value)) :
    ∃ set formula, language.meaningOf sources id = .ok set ∧ set.noun = some formula ∧
      language.execute formula = .ok value ∧
      (language.interpretSources sources).diagnostics.get? id = some formula.render := by
  simp only [Interpretation.entry, valued] at entry
  cases outcome with
  | absent | failed _ => cases congrArg Prod.fst entry
  | value result text =>
      obtain ⟨sameResult, sameText, _⟩ : some (some value) = some (some result) ∧
        (language.interpretSources sources).diagnostics.get? id = some text ∧ _ := by
          simpa only [Outcome.entry, Prod.mk.injEq] using entry
      cases sameResult
      obtain ⟨set, formula, meant, isValue, computed, rfl⟩ := justified
      exact ⟨set, formula, meant, isValue, computed, sameText⟩

/-- The names with a result are the names of the sources.  Each of them has a value with the text
of a formula, or a failure, or neither.  A value is what its formula comes to within the limits,
and a name with neither has a meaning without a value. -/
theorem interpretSources_accounts (language : Language) {limits : Limits}
    (walks : language.execute = Formula.run limits) (sources : Catalog String) :
    (∀ id, (language.interpretSources sources).results.contains id = sources.contains id) ∧
    ∀ id, sources.contains id = true →
      (∃! fate : Fate, fate.Shows (language.interpretSources sources) id) ∧
      (∀ value, (language.interpretSources sources).results.get? id = some (some value) →
        ∃ set formula, language.meaningOf sources id = .ok set ∧ set.noun = some formula ∧
          formula.depth ≤ limits.depth.toNat ∧
          (language.interpretSources sources).diagnostics.get? id = some formula.render ∧
          formula.value = value ∧ (limits.rejectNonFinite = true → value.isFinite = true)) ∧
      (Fate.function.Shows (language.interpretSources sources) id →
        ∃ set, language.meaningOf sources id = .ok set ∧ set.noun = none) := by
  refine ⟨language.results_contains sources, fun id contained => ?_⟩
  obtain ⟨source, found⟩ := Catalog.contains_iff.mp contained
  obtain ⟨outcome, justified, entry⟩ := language.outcome_of_source found
  refine ⟨⟨outcome.fate, ?_, fun fate shown => ?_⟩, fun value valued => ?_, fun shown => ?_⟩
  · exact (Fate.shows_iff entry outcome.fate).mpr rfl
  · exact (Fate.shows_iff entry fate).mp shown
  · obtain ⟨set, formula, meant, isValue, computed, diagnosed⟩ := justified.of_value entry valued
    rw [walks] at computed
    obtain ⟨shallow, same, finite⟩ := Formula.run_eq_ok_iff.mp computed
    exact ⟨set, formula, meant, isValue, shallow, diagnosed, same, finite⟩
  · have isFunction := (Fate.shows_iff entry .function).mp shown
    cases outcome with
    | value _ _ | failed _ => contradiction
    | absent => exact justified

theorem squareSources_accounted :
    standard.execute = Formula.run {} ∧
      Fate.failure.Shows (standard.interpretSources squareSources) "lost" ∧
      (∃! fate : Fate, fate.Shows (standard.interpretSources squareSources) "lost") ∧
      Fate.function.Shows (standard.interpretSources squareSources) "f" ∧
      (∃ set, standard.meaningOf squareSources "f" = .ok set ∧ set.noun = none) ∧
      (standard.interpretSources squareSources).results.get? "x" = some (some 16) ∧
      ∃ set formula, standard.meaningOf squareSources "x" = .ok set ∧ set.noun = some formula ∧
        formula.depth ≤ 256 ∧
        (standard.interpretSources squareSources).diagnostics.get? "x" = some formula.render ∧
        formula.value = 16 ∧ (16 : Float).isFinite = true := by
  obtain ⟨fEntry, lostEntry, xEntry⟩ := squareSources_entries
  obtain ⟨_, accounts⟩ := interpretSources_accounts standard rfl squareSources
  have lostShown := (Fate.shows_iff lostEntry .failure).mpr rfl
  have fShown := (Fate.shows_iff fEntry .function).mpr rfl
  have xValued := congrArg Prod.fst xEntry
  obtain ⟨set, formula, meant, isValue, shallow, diagnosed, same, finite⟩ :=
    (accounts "x" rfl).2.1 16 xValued
  exact ⟨rfl, lostShown, (accounts "lost" rfl).1, fShown, (accounts "f" rfl).2.2 fShown, xValued,
    set, formula, meant, isValue, shallow, diagnosed, same, finite rfl⟩

end Language

end Tacit
