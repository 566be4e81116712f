import Tacit.Proofs.Catalog
import Tacit.Proofs.Inquiry

/-!
# What is remembered

A run only adds to what is remembered.  What was found once is found again at once, for every name
that was asked on the way is remembered.
-/

namespace Tacit

/-- All that was remembered earlier is remembered later as it was. -/
def Memory.Grows {ε β : Type} (earlier later : Memory ε β) : Prop :=
  ∀ id result, earlier.get? id = some result → later.get? id = some result

namespace Memory

variable {ε β : Type} {earlier between later : Memory ε β}

theorem Grows.refl (memory : Memory ε β) : memory.Grows memory := fun _ _ known => known

theorem Grows.trans (first : earlier.Grows between) (second : between.Grows later) :
    earlier.Grows later :=
  fun id result known => second id result (first id result known)

theorem Grows.insert (grows : earlier.Grows later) {id : String}
    (absent : earlier.get? id = none) (result : Except ε β) :
    earlier.Grows (later.insert id result) := by
  intro other found known
  have different : other ≠ id := by
    rintro rfl
    rw [absent] at known
    contradiction
  rw [Catalog.get?_insert_of_ne later result different]
  exact grows other found known

end Memory

namespace Inquiry

variable {ε β α : Type} {answer : String → Memory ε β → Except ε β × Memory ε β}
  {search : Inquiry ε β α} {memory later : Memory ε β}

section Chains

variable {γ : Type} {next : α → Inquiry ε β γ}

theorem run_bind_ok {value : α} (ran : search.run answer memory = (.ok value, later)) :
    (search >>= next).run answer memory = (next value).run answer later := by
  induction search generalizing memory with
  | done result =>
      cases ran
      rfl
  | ask id more ih =>
      change (ask id fun answer => more answer >>= next).run answer memory = _
      rcases answered : answer id memory with ⟨error | found, between⟩
      · simp only [run, answered] at ran
        cases ran
      · simp only [run, answered] at ran ⊢
        exact ih found ran

theorem run_bind_error {error : ε} (ran : search.run answer memory = (.error error, later)) :
    (search >>= next).run answer memory = (.error error, later) := by
  induction search generalizing memory with
  | done result =>
      cases ran
      rfl
  | ask id more ih =>
      change (ask id fun answer => more answer >>= next).run answer memory = _
      rcases answered : answer id memory with ⟨failure | found, between⟩
      · simp only [run, answered] at ran ⊢
        cases ran
        rfl
      · simp only [run, answered] at ran ⊢
        exact ih found ran

end Chains

theorem run_get (answer : String → Memory ε β → Except ε β × Memory ε β) (id : String)
    (memory : Memory ε β) :
    (Inquiry.get id).run answer memory = answer id memory := by
  rw [get, run]
  rcases answer id memory with ⟨error | value, later⟩ <;> rfl

/-- What every answer does to the memory, at once or after others, a run does. -/
theorem run_induction (rel : Memory ε β → Memory ε β → Prop) (refl : ∀ memory, rel memory memory)
    (trans : ∀ earlier between later, rel earlier between → rel between later → rel earlier later)
    (step : ∀ id memory, rel memory (answer id memory).2) :
    rel memory (search.run answer memory).2 := by
  induction search generalizing memory with
  | done result => exact refl memory
  | ask id next ih =>
      have first := step id memory
      rcases answered : answer id memory with ⟨error | value, between⟩
      · rw [answered] at first
        simpa only [run, answered] using first
      · rw [answered] at first
        simpa only [run, answered] using trans _ _ _ first (ih value)

/-- A search that was run to a value can be followed in what is remembered then. -/
theorem follow_of_run (grows : ∀ id (memory : Memory ε β), memory.Grows (answer id memory).2)
    (remembers : ∀ id memory value later, answer id memory = (.ok value, later) →
      later.get? id = some (.ok value)) {value : α}
    (ran : search.run answer memory = (.ok value, later)) :
    search.follow later.get? = some (.ok value) := by
  induction search generalizing memory with
  | done result =>
      cases ran
      rfl
  | ask id next ih =>
      rcases answered : answer id memory with ⟨error | found, between⟩
      · simp only [run, answered] at ran
        cases ran
      · simp only [run, answered] at ran
        have onward : between.Grows ((next found).run answer between).2 :=
          run_induction _ Memory.Grows.refl (fun _ _ _ => Memory.Grows.trans) grows
        rw [ran] at onward
        have known := onward id _ (remembers id memory found between answered)
        rw [follow_ask_ok known]
        exact ih found ran

/-- A search that can be followed in what is remembered changes nothing of it. -/
theorem run_of_follow (recalls : ∀ id memory result, memory.get? id = some result →
      answer id memory = (result, memory)) {result : Except ε α}
    (found : search.follow memory.get? = some result) :
    search.run answer memory = (result, memory) := by
  induction search with
  | done finished =>
      cases found
      rfl
  | ask id next ih =>
      rcases known : memory.get? id with _ | error | value
      · rw [follow_ask_none known] at found
        contradiction
      · rw [follow_ask_error known, Option.some.injEq] at found
        rw [run, recalls id memory _ known, ← found]
      · rw [follow_ask_ok known] at found
        rw [run, recalls id memory _ known]
        exact ih value found

end Inquiry

namespace Resolver

variable {ι ε β α : Type} {resolver : Resolver ι ε β} {opened : Catalog ι}

section Answers

variable {id : String} {memory : Memory ε β}

theorem answer_of_known {result : Except ε β} (known : memory.get? id = some result) :
    resolver.answer opened id memory = (result, memory) := by
  rw [answer, known]

theorem answer_of_found (absent : memory.get? id = none) {item : ι}
    (found : opened.get? id = some item) {result : Except ε β} {later : Memory ε β}
    (ran : (resolver.inquiry item).run (resolver.answer (opened.erase id)) memory =
      (result, later)) :
    resolver.answer opened id memory = (result, later.insert id result) := by
  rw [answer, absent]
  simp only
  split
  next other alsoFound =>
    cases found.symm.trans alsoFound
    rw [ran]
  next closed =>
    rw [found] at closed
    contradiction

theorem answer_of_closed (absent : memory.get? id = none) (closed : opened.get? id = none) :
    resolver.answer opened id memory =
      (.error (if resolver.items.contains id then resolver.cycle id else resolver.unknown id),
        memory) := by
  rw [answer, absent]
  simp only
  split
  next item found =>
    rw [closed] at found
    contradiction
  next => rfl

/-- A name is remembered, or its item is open and worked on, or it is not open. -/
theorem answer_cases (resolver : Resolver ι ε β) (opened : Catalog ι) (id : String)
    (memory : Memory ε β) :
    (∃ result, memory.get? id = some result ∧
      resolver.answer opened id memory = (result, memory)) ∨
    (memory.get? id = none ∧ ∃ item result later, opened.get? id = some item ∧
      (resolver.inquiry item).run (resolver.answer (opened.erase id)) memory = (result, later) ∧
      resolver.answer opened id memory = (result, later.insert id result)) ∨
    (memory.get? id = none ∧ opened.get? id = none ∧
      ∃ error, resolver.answer opened id memory = (.error error, memory)) := by
  cases known : memory.get? id with
  | some result => exact .inl ⟨result, rfl, answer_of_known known⟩
  | none =>
      cases found : opened.get? id with
      | some item => exact .inr (.inl ⟨rfl, item, _, _, rfl, rfl, answer_of_found known found rfl⟩)
      | none => exact .inr (.inr ⟨rfl, rfl, _, answer_of_closed known found⟩)

end Answers

/-- Answers only add to what is remembered. -/
theorem answer_grows (opened : Catalog ι) (id : String) (memory : Memory ε β) :
    memory.Grows (resolver.answer opened id memory).2 := by
  induction size : opened.size using Nat.strongRecOn generalizing opened id memory with
  | ind bound ih =>
      obtain ⟨_, _, same⟩ | ⟨absent, item, result, later, found, ran, same⟩ | ⟨_, _, _, same⟩ :=
        resolver.answer_cases opened id memory
      · rw [same]
        exact .refl memory
      · have smaller : (opened.erase id).size < bound := size ▸ Catalog.size_erase_lt found
        have inside : memory.Grows
            ((resolver.inquiry item).run (resolver.answer (opened.erase id)) memory).2 :=
          Inquiry.run_induction _ Memory.Grows.refl (fun _ _ _ => Memory.Grows.trans)
            fun name store => ih _ smaller _ name store rfl
        rw [ran] at inside
        rw [same]
        exact inside.insert absent result
      · rw [same]
        exact .refl memory

/-- Runs only add to what is remembered. -/
theorem run_grows (opened : Catalog ι) (search : Inquiry ε β α) (memory : Memory ε β) :
    memory.Grows (search.run (resolver.answer opened) memory).2 :=
  Inquiry.run_induction _ Memory.Grows.refl (fun _ _ _ => Memory.Grows.trans)
    (resolver.answer_grows opened)

/-- An answer that is a value is remembered. -/
theorem get?_of_answer_ok {id : String} {memory later : Memory ε β} {value : β}
    (answered : resolver.answer opened id memory = (.ok value, later)) :
    later.get? id = some (.ok value) := by
  obtain ⟨_, known, same⟩ | ⟨_, _, _, _, _, _, same⟩ | ⟨_, _, _, same⟩ :=
    resolver.answer_cases opened id memory
  · cases same.symm.trans answered
    exact known
  · cases same.symm.trans answered
    exact Catalog.get?_insert_self _ _ _
  · cases same.symm.trans answered

/-- A search that was run to a value is run to it again, whatever is worked on, and adds nothing. -/
theorem run_again {search : Inquiry ε β α} {memory later evenLater : Memory ε β} {value : α}
    (ran : search.run (resolver.answer opened) memory = (.ok value, later))
    (grows : later.Grows evenLater) (otherwise : Catalog ι) :
    search.run (resolver.answer otherwise) evenLater = (.ok value, evenLater) := by
  have found := Inquiry.follow_of_run (resolver.answer_grows opened)
    (fun _ _ _ _ => get?_of_answer_ok) ran
  exact Inquiry.run_of_follow (fun _ _ _ => answer_of_known) (Inquiry.follow_mono grows found)

end Resolver

end Tacit
