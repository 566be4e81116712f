import Tacit.Interpretation
import Tacit.Proofs.Evaluation

/-!
# What an interpretation says of each name

An interpretation is read name by name.  Each name of a graph gets the outcome of its own meaning,
whichever names were taken before it.
-/

namespace Tacit

/-- What is said of one name: its value, the formula behind it, and its failure. -/
abbrev Entry := Option (Option Float) × Option String × Option Error

/-- What an interpretation says of a name. -/
def Interpretation.entry (interpretation : Interpretation) (id : String) : Entry :=
  (interpretation.results.get? id, interpretation.diagnostics.get? id,
    interpretation.failures.get? id)

/-- What is said of a name with this outcome. -/
def Outcome.entry : Outcome → Entry
  | .value result formula => (some (some result), some formula, none)
  | .absent => (some none, none, none)
  | .failed error => (some none, none, some error)

/-- What is said of a name that does not occur. -/
def Entry.nothing : Entry := (none, none, none)

namespace Interpretation

/-- Interpretations that say the same of every name are equal. -/
theorem ext_entry {left right : Interpretation} (same : ∀ id, left.entry id = right.entry id) :
    left = right := by
  refine Interpretation.ext ?_ ?_ ?_
  · exact Catalog.ext_get? fun id => congrArg (fun entry : Entry => entry.1) (same id)
  · exact Catalog.ext_get? fun id => congrArg (fun entry : Entry => entry.2.1) (same id)
  · exact Catalog.ext_get? fun id => congrArg (fun entry : Entry => entry.2.2) (same id)

@[simp]
theorem entry_empty (id : String) : (∅ : Interpretation).entry id = Entry.nothing := rfl

theorem entry_recordFailure_self {interpretation : Interpretation} {id : String} (error : Error)
    (fresh : interpretation.entry id = Entry.nothing) :
    (interpretation.recordFailure id error).entry id = (Outcome.failed error).entry := by
  simp only [entry, Entry.nothing, Prod.mk.injEq] at fresh
  simp [entry, recordFailure, Outcome.entry, fresh]

theorem entry_recordFailure_of_ne (interpretation : Interpretation) {id read : String}
    (error : Error) (different : read ≠ id) :
    (interpretation.recordFailure id error).entry read = interpretation.entry read := by
  simp [entry, recordFailure, Catalog.get?_insert_of_ne _ _ different]

theorem entry_record_self {interpretation : Interpretation} {id : String} (outcome : Outcome)
    (fresh : interpretation.entry id = Entry.nothing) :
    (interpretation.record id outcome).entry id = outcome.entry := by
  cases outcome with
  | failed error => exact entry_recordFailure_self error fresh
  | value result formula | absent =>
      simp only [entry, Entry.nothing, Prod.mk.injEq] at fresh
      simp [entry, record, Outcome.entry, fresh]

theorem entry_record_of_ne (interpretation : Interpretation) {id read : String}
    (outcome : Outcome) (different : read ≠ id) :
    (interpretation.record id outcome).entry read = interpretation.entry read := by
  cases outcome with
  | failed error => exact entry_recordFailure_of_ne interpretation error different
  | value result formula | absent =>
      simp [entry, record, Catalog.get?_insert_of_ne _ _ different]

/-- Where the newer interpretation says nothing, the older one stands. -/
theorem entry_merge_of_newer_nothing (interpretation : Interpretation) {newer : Interpretation}
    {id : String} (silent : newer.entry id = Entry.nothing) :
    (interpretation.merge newer).entry id = interpretation.entry id := by
  simp only [entry, Entry.nothing, Prod.mk.injEq] at silent
  simp [entry, merge, Catalog.get?_merge, silent]

/-- Where the older interpretation says nothing, the newer one stands. -/
theorem entry_merge_of_older_nothing {interpretation : Interpretation} (newer : Interpretation)
    {id : String} (silent : interpretation.entry id = Entry.nothing) :
    (interpretation.merge newer).entry id = newer.entry id := by
  simp only [entry, Entry.nothing, Prod.mk.injEq] at silent
  simp [entry, merge, Catalog.get?_merge, silent]

end Interpretation

namespace Outcome

variable {execute : Execution} {formula : Formula}

theorem ofMeaning_of_value {value : Float} (computed : execute formula = .ok value) :
    ofMeaning execute (.ok (.single (.noun formula))) = .value value formula.render := by
  simp [ofMeaning, SymbolSet.single, SymbolSet.insert, computed]

theorem ofMeaning_of_refused {error : ExecutionError} (refused : execute formula = .error error) :
    ofMeaning execute (.ok (.single (.noun formula))) = .failed (.eval (.execution error)) := by
  simp [ofMeaning, SymbolSet.single, SymbolSet.insert, refused]

/-- A name fails because it has no meaning or because the formula in it is refused. -/
theorem failure_of_ofMeaning {meaning : Except EvalError SymbolSet} {error : Error}
    (failed : (ofMeaning execute meaning).entry.2.2 = some error) :
    (∃ reason, meaning = .error reason ∧ error = .eval reason) ∨
      ∃ refused, error = .eval (.execution refused) := by
  cases meaning with
  | error reason => exact .inl ⟨reason, rfl, (Option.some.inj failed).symm⟩
  | ok set =>
      rw [ofMeaning] at failed
      split at failed
      next => cases failed
      next =>
        split at failed
        next => cases failed
        next refused _ => exact .inr ⟨refused, (Option.some.inj failed).symm⟩

end Outcome

namespace Evaluator

variable {evaluator : Evaluator} {execute : Execution}

/-- Taking one name leaves what is said of the others. -/
theorem entry_interpretOne_of_ne (evaluator : Evaluator) (execute : Execution)
    (state : Interpretation × Memory EvalError SymbolSet) {id name : String}
    (different : name ≠ id) :
    (evaluator.interpretOne execute state name).1.entry id = state.1.entry id :=
  Interpretation.entry_record_of_ne state.1 _ different.symm

/-- Every name of the graph gets the outcome of its own meaning. -/
theorem interpret_entry (evaluator : Evaluator) (execute : Execution) {id : String} {expr : Expr}
    (found : evaluator.graph.get? id = some expr) :
    ∃ meaning, evaluator.resolver.Accounts (.get id) meaning ∧
      (evaluator.interpret execute).entry id = (Outcome.ofMeaning execute meaning).entry := by
  obtain ⟨before, faithful, fresh, final⟩ := Catalog.foldl_view_of_mem (fun name => name)
    (fun state => state.1.entry id) (evaluator.interpretOne execute)
    (fun state => evaluator.resolver.Faithful state.2)
    (fun state _ => evaluator.entry_interpretOne_of_ne execute state)
    (fun _ name faithful => (Resolver.run_spec (.get name) faithful).2)
    (by simpa using evaluator.graph.names_nodup) (Catalog.mem_names_iff.mpr ⟨expr, found⟩) rfl
    (∅, ∅) Resolver.faithful_empty
  refine ⟨_, (Resolver.run_spec (.get id) faithful).1, final.trans ?_⟩
  exact Interpretation.entry_record_self _ fresh

/-- Nothing is said of other names. -/
theorem interpret_entry_of_absent (evaluator : Evaluator) (execute : Execution) {id : String}
    (absent : evaluator.graph.get? id = none) :
    (evaluator.interpret execute).entry id = Entry.nothing := by
  refine Catalog.foldl_view_of_not_mem (fun name => name)
    (fun state => state.1.entry id) (evaluator.interpretOne execute)
    (fun state _ => evaluator.entry_interpretOne_of_ne execute state) ?_ _
  rintro name member rfl
  obtain ⟨expr, found⟩ := Catalog.mem_names_iff.mp member
  rw [absent] at found
  contradiction

/-- A named expression with a meaning gets the outcome of this meaning. -/
theorem interpret_entry_of_means (evaluator : Evaluator) (execute : Execution) {id : String}
    {expr : Expr} {set : SymbolSet} (found : evaluator.graph.get? id = some expr)
    (means : evaluator.Means expr set) :
    (evaluator.interpret execute).entry id = (Outcome.ofMeaning execute (.ok set)).entry := by
  obtain ⟨meaning, accounts, entry⟩ := evaluator.interpret_entry execute found
  have settles := (Resolver.settles_get_iff found).mpr (means_iff_settles.mp means)
  rw [entry, (accounts.alike settles.accounts).eq_ok]

/-- Behind every value there is a meaning with a formula of this value. -/
theorem means_of_value {id : String} {value : Float}
    (valued : (evaluator.interpret execute).results.get? id = some (some value)) :
    ∃ expr set formula, evaluator.graph.get? id = some expr ∧ evaluator.Means expr set ∧
      set.noun = some formula ∧ execute formula = .ok value := by
  cases found : evaluator.graph.get? id with
  | none =>
      have silent := evaluator.interpret_entry_of_absent execute found
      have noResult := congrArg Prod.fst silent
      rw [show ((evaluator.interpret execute).entry id).1 = some (some value) from valued]
        at noResult
      contradiction
  | some expr =>
      obtain ⟨meaning, accounts, entry⟩ := evaluator.interpret_entry execute found
      have result := congrArg Prod.fst entry
      rw [show ((evaluator.interpret execute).entry id).1 = some (some value) from valued]
        at result
      cases meaning with
      | error error => cases result
      | ok set =>
          have settles := (Resolver.settles_get_iff found).mp accounts.settles
          refine ⟨expr, set, ?_⟩
          rw [Outcome.ofMeaning] at result
          split at result
          next => cases result
          next formula noun =>
            split at result
            next computed executed =>
              cases result
              exact ⟨formula, rfl, means_iff_settles.mpr settles, noun, executed⟩
            next => cases result

end Evaluator

end Tacit
