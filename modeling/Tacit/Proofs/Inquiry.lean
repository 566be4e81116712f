import Tacit.Inquiry

/-!
# Searches and their answers

`Inquiry.follow` runs a search against a fixed table of answers, with nothing remembered and
nothing guarded.  A search that asks for a name outside the table comes to nothing.  `Always` is a
small logic for searches: which names they may ask, and what holds of whatever they find.
-/

namespace Tacit

/-- A computation in two parts succeeds if both parts do. -/
theorem bind_eq_ok_iff {ε α β : Type} {result : Except ε α} {next : α → Except ε β} {value : β} :
    (result >>= next) = .ok value ↔ ∃ between, result = .ok between ∧ next between = .ok value := by
  cases result <;> simp [bind, Except.bind]

theorem mapError_eq_ok_iff {ε δ α : Type} {result : Except ε α} {rename : ε → δ} {value : α} :
    result.mapError rename = .ok value ↔ result = .ok value := by
  cases result with
  | ok found =>
      constructor
      · intro same
        cases same
        rfl
      · intro same
        cases same
        rfl
  | error error =>
      constructor
      · intro impossible
        cases impossible
      · intro impossible
        cases impossible

namespace Inquiry

/-- What a search comes to when the names of a table are answered; nothing if it asks another. -/
def follow {ε β α : Type} (answers : String → Option (Except ε β)) :
    Inquiry ε β α → Option (Except ε α)
  | done result => some result
  | ask id next =>
      match answers id with
      | none => none
      | some (.ok value) => (next value).follow answers
      | some (.error error) => some (.error error)

@[simp]
theorem follow_done {ε β α : Type} (answers : String → Option (Except ε β))
    (result : Except ε α) : (done result : Inquiry ε β α).follow answers = some result := rfl

@[simp]
theorem follow_pure {ε β α : Type} (answers : String → Option (Except ε β)) (value : α) :
    (pure value : Inquiry ε β α).follow answers = some (.ok value) := rfl

@[simp]
theorem follow_lift {ε β α : Type} (answers : String → Option (Except ε β))
    (result : Except ε α) : (liftM result : Inquiry ε β α).follow answers = some result := rfl

theorem follow_ask_ok {ε β α : Type} {answers : String → Option (Except ε β)} {id : String}
    {value : β} (answered : answers id = some (.ok value)) (next : β → Inquiry ε β α) :
    (ask id next).follow answers = (next value).follow answers := by
  rw [follow, answered]

theorem follow_ask_error {ε β α : Type} {answers : String → Option (Except ε β)} {id : String}
    {error : ε} (answered : answers id = some (.error error)) (next : β → Inquiry ε β α) :
    (ask id next).follow answers = some (.error error) := by
  rw [follow, answered]

theorem follow_ask_none {ε β α : Type} {answers : String → Option (Except ε β)} {id : String}
    (unanswered : answers id = none) (next : β → Inquiry ε β α) :
    (ask id next).follow answers = none := by
  rw [follow, unanswered]

@[simp]
theorem follow_get {ε β : Type} (answers : String → Option (Except ε β)) (id : String) :
    (get id : Inquiry ε β β).follow answers = answers id := by
  rcases answered : answers id with _ | error | value
  · exact follow_ask_none answered pure
  · exact follow_ask_error answered pure
  · exact follow_ask_ok answered pure

/-- A search in two parts finds what the second part finds with what the first part found. -/
theorem follow_bind_eq_ok {ε β α γ : Type} {answers : String → Option (Except ε β)}
    {search : Inquiry ε β α} {next : α → Inquiry ε β γ} {value : γ} :
    (search >>= next).follow answers = some (.ok value) ↔
      ∃ between, search.follow answers = some (.ok between) ∧
        (next between).follow answers = some (.ok value) := by
  induction search with
  | done result =>
      cases result with
      | ok between =>
          change (next between).follow answers = some (.ok value) ↔ _
          simp
      | error error =>
          change some (Except.error error) = some (Except.ok value) ↔ _
          simp
  | ask id more ih =>
      change (ask id fun answer => more answer >>= next).follow answers = some (.ok value) ↔ _
      rcases answered : answers id with _ | error | answer
      · simp [follow_ask_none answered]
      · simp [follow_ask_error answered]
      · simpa only [follow_ask_ok answered] using ih answer

/-- A search in two parts fails in its first part, or in the second with what the first part
found. -/
theorem follow_bind_eq_error {ε β α γ : Type} {answers : String → Option (Except ε β)}
    {search : Inquiry ε β α} {next : α → Inquiry ε β γ} {error : ε} :
    (search >>= next).follow answers = some (.error error) ↔
      search.follow answers = some (.error error) ∨
        ∃ between, search.follow answers = some (.ok between) ∧
          (next between).follow answers = some (.error error) := by
  induction search with
  | done result =>
      cases result with
      | ok between =>
          change (next between).follow answers = some (.error error) ↔ _
          simp
      | error failure =>
          change some (Except.error failure) = some (Except.error error) ↔ _
          simp
  | ask id more ih =>
      change (ask id fun answer => more answer >>= next).follow answers = some (.error error) ↔ _
      rcases answered : answers id with _ | failure | answer
      · simp [follow_ask_none answered]
      · simp [follow_ask_error answered]
      · simpa only [follow_ask_ok answered] using ih answer

/-- More answers never change what a search has come to. -/
theorem follow_mono {ε β α : Type} {answers more : String → Option (Except ε β)}
    (extended : ∀ id result, answers id = some result → more id = some result)
    {search : Inquiry ε β α} {result : Except ε α}
    (found : search.follow answers = some result) : search.follow more = some result := by
  induction search with
  | done finished => exact found
  | ask id next ih =>
      rcases answered : answers id with _ | error | answer
      · rw [follow_ask_none answered] at found
        contradiction
      · rw [follow_ask_error answered] at found
        rw [follow_ask_error (extended id _ answered)]
        exact found
      · rw [follow_ask_ok answered] at found
        rw [follow_ask_ok (extended id _ answered)]
        exact ih answer found

/-- Only allowed names are asked, and with possible answers only what is claimed is found. -/
def Always {ε β α : Type} (allowed : String → Prop) (possible : String → β → Prop)
    (claim : α → Prop) : Inquiry ε β α → Prop
  | done (.ok value) => claim value
  | done (.error _) => True
  | ask id next =>
      allowed id ∧ ∀ answer, possible id answer → (next answer).Always allowed possible claim

/-- Only allowed names are asked. -/
abbrev AsksOnly {ε β α : Type} (allowed : String → Prop) (search : Inquiry ε β α) : Prop :=
  search.Always allowed (fun _ _ => True) fun _ => True

section Logic

variable {ε β α γ : Type} {allowed : String → Prop} {possible : String → β → Prop}

theorem always_pure {claim : α → Prop} {value : α} (holds : claim value) :
    (pure value : Inquiry ε β α).Always allowed possible claim := holds

theorem always_trivial (search : Inquiry ε β α) :
    search.Always (fun _ => True) possible fun _ => True := by
  induction search with
  | done result => cases result <;> trivial
  | ask id next ih => exact ⟨trivial, fun answer _ => ih answer⟩

theorem always_lift {claim : α → Prop} {result : Except ε α}
    (holds : ∀ value, result = .ok value → claim value) :
    (done result : Inquiry ε β α).Always allowed possible claim := by
  cases result with
  | ok value => exact holds value rfl
  | error error => trivial

theorem always_get {claim : β → Prop} {id : String} (fine : allowed id)
    (holds : ∀ answer, possible id answer → claim answer) :
    (get id : Inquiry ε β β).Always allowed possible claim :=
  ⟨fine, holds⟩

/-- The rule for a search in two parts. -/
theorem Always.bind {between : α → Prop} {claim : γ → Prop} {search : Inquiry ε β α}
    {next : α → Inquiry ε β γ} (first : search.Always allowed possible between)
    (second : ∀ value, between value → (next value).Always allowed possible claim) :
    (search >>= next).Always allowed possible claim := by
  induction search with
  | done result =>
      cases result with
      | ok value => exact second value first
      | error error => trivial
  | ask id more ih => exact ⟨first.1, fun answer possibly => ih answer (first.2 answer possibly)⟩

theorem Always.imp {weaker claim : α → Prop} {search : Inquiry ε β α}
    (holds : search.Always allowed possible claim) (implied : ∀ value, claim value → weaker value) :
    search.Always allowed possible weaker := by
  induction search with
  | done result =>
      cases result with
      | ok value => exact implied value holds
      | error error => trivial
  | ask id more ih => exact ⟨holds.1, fun answer possibly => ih answer (holds.2 answer possibly)⟩

theorem Always.allow {more : String → Prop} {claim : α → Prop} {search : Inquiry ε β α}
    (holds : search.Always allowed possible claim) (wider : ∀ id, allowed id → more id) :
    search.Always more possible claim := by
  induction search with
  | done result =>
      cases result with
      | ok value => exact holds
      | error error => trivial
  | ask id next ih =>
      exact ⟨wider id holds.1, fun answer possibly => ih answer (holds.2 answer possibly)⟩

/-- What is claimed holds of what is found, if the table only has possible answers. -/
theorem Always.of_follow {claim : α → Prop} {search : Inquiry ε β α}
    (holds : search.Always allowed possible claim) {answers : String → Option (Except ε β)}
    (sound : ∀ id answer, answers id = some (.ok answer) → possible id answer) {value : α}
    (found : search.follow answers = some (.ok value)) : claim value := by
  induction search with
  | done result =>
      obtain rfl : result = .ok value := by simpa using found
      exact holds
  | ask id next ih =>
      rcases answered : answers id with _ | error | answer
      · rw [follow_ask_none answered] at found
        contradiction
      · simp [follow_ask_error answered] at found
      · rw [follow_ask_ok answered] at found
        exact ih answer (holds.2 answer (sound id answer answered)) found

/-- Tables that agree on the allowed names are as good as each other. -/
theorem Always.follow_congr {claim : α → Prop} {search : Inquiry ε β α}
    (holds : search.Always allowed (fun _ _ => True) claim)
    {left right : String → Option (Except ε β)} (agree : ∀ id, allowed id → left id = right id) :
    search.follow left = search.follow right := by
  induction search with
  | done result => rfl
  | ask id next ih =>
      have same := agree id holds.1
      rcases answered : left id with _ | error | answer
      · rw [follow_ask_none answered, follow_ask_none (same ▸ answered)]
      · rw [follow_ask_error answered, follow_ask_error (same ▸ answered)]
      · rw [follow_ask_ok answered, follow_ask_ok (same ▸ answered)]
        exact ih answer (holds.2 answer trivial)

end Logic

end Inquiry

end Tacit
