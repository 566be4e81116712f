import Tacit.Proofs.Memory

/-!
# Searches that may never end

Plain recursion, with nothing that makes it end, is written down with a limit on its depth: at the
limit it is cut off and has no answer.  It ends if from some limit on it has one, always the same.
Where a search goes on step by step as an `Inquiry` that a resolver runs, it ends as the run does.
A search for names keeps a list of those it is busy with; it ends because the resolver has only so
many items.
-/

namespace Tacit

/-- From some limit on there is an answer, and it is this one. -/
def EndsWith {ρ : Type} (limited : Nat → Option ρ) (answer : ρ) : Prop :=
  ∃ enough, ∀ limit, enough ≤ limit → limited limit = some answer

namespace EndsWith

variable {ρ σ : Type} {limited : Nat → Option ρ} {answer : ρ}

theorem of_forall (same : ∀ limit, limited limit = some answer) : EndsWith limited answer :=
  ⟨0, fun limit _ => same limit⟩

theorem of_succ (ends : EndsWith (fun limit => limited (limit + 1)) answer) :
    EndsWith limited answer := by
  obtain ⟨enough, ends⟩ := ends
  refine ⟨enough + 1, fun limit large => ?_⟩
  obtain ⟨smaller, rfl⟩ := Nat.exists_eq_add_of_le' large
  exact ends (smaller + enough) (Nat.le_add_left enough smaller)

theorem succ (ends : EndsWith limited answer) :
    EndsWith (fun limit => limited (limit + 1)) answer := by
  obtain ⟨enough, ends⟩ := ends
  exact ⟨enough, fun limit large => ends (limit + 1) (Nat.le_succ_of_le large)⟩

theorem bind {next : Nat → ρ → Option σ} {final : σ} (first : EndsWith limited answer)
    (second : EndsWith (fun limit => next limit answer) final) :
    EndsWith (fun limit => (limited limit).bind (next limit)) final := by
  obtain ⟨enoughFirst, first⟩ := first
  obtain ⟨enoughSecond, second⟩ := second
  refine ⟨max enoughFirst enoughSecond, fun limit large => ?_⟩
  change (limited limit).bind (next limit) = some final
  rw [first limit (Nat.le_trans (Nat.le_max_left ..) large)]
  exact second limit (Nat.le_trans (Nat.le_max_right ..) large)

theorem map (f : ρ → σ) (ends : EndsWith limited answer) :
    EndsWith (fun limit => (limited limit).map f) (f answer) := by
  obtain ⟨enough, ends⟩ := ends
  exact ⟨enough, fun limit large => congrArg (Option.map f) (ends limit large)⟩

end EndsWith

/-- A computation that may fail, and may be cut off before its end. -/
abbrev Limited (ε : Type) := ExceptT ε Option

namespace Limited

variable {ε α γ : Type}

/-- What is left of a computation at its limit. -/
def cut : Limited ε α := ExceptT.mk none

theorem endsWith_bind {computation : Nat → Limited ε α} {result : Except ε α}
    {next : Nat → α → Limited ε γ} {more : α → Except ε γ}
    (first : EndsWith (fun limit => (computation limit).run) result)
    (second : ∀ value, EndsWith (fun limit => (next limit value).run) (more value)) :
    EndsWith (fun limit => (computation limit >>= next limit).run) (result >>= more) := by
  refine EndsWith.bind first ?_
  cases result with
  | error error => exact .of_forall fun _ => rfl
  | ok value => exact second value

end Limited

/-- A search that may fail, and may be cut off before its end, with what it remembers. -/
abbrev Seeking (ε β : Type) := ExceptT ε (StateT (Memory ε β) Option)

namespace Seeking

variable {ε β α γ δ ζ : Type}

/-- What is left of a search at its limit. -/
def cut : Seeking ε β α := ExceptT.mk fun _ => none

/-- The outcome of a search that starts with a memory, unless it is cut off. -/
def outcome (seeking : Seeking ε β α) (memory : Memory ε β) : Option (Except ε α × Memory ε β) :=
  seeking.run.run memory

/-- A computation as a search that remembers nothing. -/
def lift (computation : Limited ε α) : Seeking ε β α := ExceptT.mk (StateT.lift computation.run)

section Outcome

variable {seeking : Nat → Seeking ε β α} {next : Nat → α → Seeking ε β γ}
  {memory later : Memory ε β}

theorem endsWith_lift {computation : Nat → Limited ε α} {result : Except ε α}
    (ends : EndsWith (fun limit => (computation limit).run) result) (memory : Memory ε β) :
    EndsWith (fun limit => (lift (computation limit) : Seeking ε β α).outcome memory)
      (result, memory) :=
  EndsWith.bind ends (.of_forall fun _ => rfl)

theorem endsWith_bind_ok {value : α} {final : Except ε γ × Memory ε β}
    (found : EndsWith (fun limit => (seeking limit).outcome memory) (.ok value, later))
    (goesOn : EndsWith (fun limit => (next limit value).outcome later) final) :
    EndsWith (fun limit => (seeking limit >>= next limit).outcome memory) final :=
  EndsWith.bind found goesOn

theorem endsWith_bind_error {error : ε}
    (failed : EndsWith (fun limit => (seeking limit).outcome memory) (.error error, later)) :
    EndsWith (fun limit => (seeking limit >>= next limit).outcome memory)
      (.error error, later) :=
  EndsWith.bind failed (.of_forall fun _ => rfl)

end Outcome

/-- A search without bounds comes to the end that a run of an inquiry comes to, with results that
are related. -/
inductive Mirrors (answer : String → Memory ε β → Except ε β × Memory ε β)
    (related : Memory ε β → α → γ → Prop) (seeking : Nat → Seeking ε β α)
    (search : Inquiry ε β γ) (memory : Memory ε β) : Prop
  | ok {value : α} {other : γ} {later : Memory ε β}
      (found : EndsWith (fun limit => (seeking limit).outcome memory) (.ok value, later))
      (ran : search.run answer memory = (.ok other, later)) (holds : related later value other)
  | error {error : ε} {later : Memory ε β}
      (failed : EndsWith (fun limit => (seeking limit).outcome memory) (.error error, later))
      (ran : search.run answer memory = (.error error, later))

namespace Mirrors

variable {answer : String → Memory ε β → Except ε β × Memory ε β} {memory : Memory ε β}

theorem of_endsWith {seeking : Nat → Seeking ε β α} {search : Inquiry ε β α}
    (ends : EndsWith (fun limit => (seeking limit).outcome memory) (search.run answer memory)) :
    Mirrors answer (fun _ value other => value = other) seeking search memory := by
  rcases ran : search.run answer memory with ⟨error | value, later⟩
  · exact .error (ran ▸ ends) ran
  · exact .ok (ran ▸ ends) ran rfl

theorem endsWith {seeking : Nat → Seeking ε β α} {search : Inquiry ε β α}
    (mirrors : Mirrors answer (fun _ value other => value = other) seeking search memory) :
    EndsWith (fun limit => (seeking limit).outcome memory) (search.run answer memory) := by
  cases mirrors with
  | ok found ran holds =>
      rw [ran, ← holds]
      exact found
  | error failed ran =>
      rw [ran]
      exact failed

theorem of_succ {related : Memory ε β → α → γ → Prop} {seeking : Nat → Seeking ε β α}
    {search : Inquiry ε β γ}
    (mirrors : Mirrors answer related (fun limit => seeking (limit + 1)) search memory) :
    Mirrors answer related seeking search memory := by
  cases mirrors with
  | ok found ran holds => exact .ok found.of_succ ran holds
  | error failed ran => exact .error failed.of_succ ran

theorem bind {related : Memory ε β → α → γ → Prop} {seeking : Nat → Seeking ε β α}
    {search : Inquiry ε β γ} (first : Mirrors answer related seeking search memory)
    {after : Memory ε β → δ → ζ → Prop} {next : Nat → α → Seeking ε β δ}
    {more : γ → Inquiry ε β ζ}
    (second : ∀ later value other, search.run answer memory = (.ok other, later) →
      related later value other →
        Mirrors answer after (fun limit => next limit value) (more other) later) :
    Mirrors answer after (fun limit => seeking limit >>= next limit) (search >>= more)
      memory := by
  cases first with
  | ok found ran holds =>
      cases second _ _ _ ran holds with
      | ok foundLater ranLater holdsLater =>
          exact .ok (endsWith_bind_ok found foundLater) (Inquiry.run_bind_ok ran ▸ ranLater)
            holdsLater
      | error failedLater ranLater =>
          exact .error (endsWith_bind_ok found failedLater) (Inquiry.run_bind_ok ran ▸ ranLater)
  | error failed ran => exact .error (endsWith_bind_error failed) (Inquiry.run_bind_error ran)

theorem pure {related : Memory ε β → α → γ → Prop} {value : α} {other : γ}
    (holds : related memory value other) :
    Mirrors answer related (fun _ => (pure value : Seeking ε β α)) (pure other : Inquiry ε β γ)
      memory :=
  .ok (.of_forall fun _ => rfl) rfl holds

end Mirrors

/-- A search that goes on as an inquiry does, from an end that they share, ends as the inquiry. -/
theorem endsWith_bind {answer : String → Memory ε β → Except ε β × Memory ε β}
    {memory : Memory ε β} {seeking : Nat → Seeking ε β α} {search : Inquiry ε β α}
    {next : Nat → α → Seeking ε β γ} {more : α → Inquiry ε β γ}
    (first : EndsWith (fun limit => (seeking limit).outcome memory) (search.run answer memory))
    (second : ∀ later value, EndsWith (fun limit => (next limit value).outcome later)
      ((more value).run answer later)) :
    EndsWith (fun limit => (seeking limit >>= next limit).outcome memory)
      ((search >>= more).run answer memory) :=
  ((Mirrors.of_endsWith first).bind fun later value _ _ same =>
    same ▸ .of_endsWith (second later value)).endsWith

end Seeking

namespace Resolver

variable {ι ε β : Type} {resolver : Resolver ι ε β}

/-- The search for a name.  A busy name fails; for any other the work on its item is done and the
result remembered. -/
def lookUp (resolver : Resolver ι ε β) (busy : List String) (id : String)
    (work : ι → Seeking ε β β) : Seeking ε β β := do
  match (← get).get? id with
  | some known => known
  | none =>
      if id ∈ busy then throw (resolver.cycle id)
      else match resolver.items.get? id with
        | none => throw (resolver.unknown id)
        | some item => (do
            let result ← (work item).run
            modify (·.insert id result)
            return result : StateT (Memory ε β) Option _)

/-- These items are open while the busy names are being worked on. -/
structure LeavesOpen (resolver : Resolver ι ε β) (busy : List String) (opened : Catalog ι) :
    Prop where
  get? : ∀ id, opened.get? id = if id ∈ busy then none else resolver.items.get? id
  known : ∀ id ∈ busy, resolver.items.contains id = true

theorem leavesOpen_nil : resolver.LeavesOpen [] resolver.items :=
  ⟨fun _ => rfl, by simp⟩

theorem LeavesOpen.begun {busy : List String} {opened : Catalog ι}
    (leaves : resolver.LeavesOpen busy opened) {id : String} {item : ι}
    (found : opened.get? id = some item) :
    resolver.LeavesOpen (id :: busy) (opened.erase id) where
  get? other := by
    by_cases same : other = id
    · rw [same, Catalog.get?_erase_self, if_pos List.mem_cons_self]
    · rw [Catalog.get?_erase_of_ne opened same, leaves.get? other]
      simp [same]
  known := by
    refine List.forall_mem_cons.mpr ⟨?_, leaves.known⟩
    rw [leaves.get? id] at found
    split at found
    · contradiction
    · exact Catalog.contains_iff.mpr ⟨item, found⟩

theorem endsWith_lookUp {busy : List String} {opened : Catalog ι}
    (leaves : resolver.LeavesOpen busy opened) {id : String} {work : Nat → ι → Seeking ε β β}
    (inside : ∀ item, opened.get? id = some item → ∀ memory,
      EndsWith (fun limit => (work limit item).outcome memory)
        ((resolver.inquiry item).run (resolver.answer (opened.erase id)) memory))
    (memory : Memory ε β) :
    EndsWith (fun limit => (resolver.lookUp busy id (work limit)).outcome memory)
      (resolver.answer opened id memory) := by
  have read : EndsWith (fun _ => (get : Seeking ε β (Memory ε β)).outcome memory)
    (.ok memory, memory) := .of_forall fun _ => rfl
  refine Seeking.endsWith_bind_ok read ?_
  cases known : memory.get? id with
  | some result =>
      rw [answer_of_known known]
      exact .of_forall fun _ => rfl
  | none =>
      by_cases isBusy : id ∈ busy
      · have closed : opened.get? id = none := by rw [leaves.get? id, if_pos isBusy]
        rw [answer_of_closed known closed, if_pos (leaves.known id isBusy)]
        simp only [if_pos isBusy]
        exact .of_forall fun _ => rfl
      · have same : opened.get? id = resolver.items.get? id := by
          rw [leaves.get? id, if_neg isBusy]
        simp only [if_neg isBusy]
        cases found : opened.get? id with
        | none =>
            have unlisted : resolver.items.contains id = false := by
              rw [Catalog.contains, ← same, found]
              rfl
            rw [answer_of_closed known found, ← same, found, unlisted]
            exact .of_forall fun _ => rfl
        | some item =>
            rcases ran : (resolver.inquiry item).run (resolver.answer (opened.erase id)) memory
              with ⟨result, later⟩
            have worked := inside item found memory
            rw [ran] at worked
            rw [answer_of_found known found ran, ← same, found]
            exact worked.bind (.of_forall fun _ => rfl)

/-- A search that looks names up, with each name busy during the work on its item, ends as the
resolver answers, if the work ends wherever the searches it makes do. -/
theorem endsWith_lookUp_of_work (resolver : Resolver ι ε β)
    (work : Nat → List String → ι → Seeking ε β β)
    (works : ∀ busy opened,
      (∀ id memory,
        EndsWith (fun limit => (resolver.lookUp busy id (work limit (id :: busy))).outcome memory)
          (resolver.answer opened id memory)) →
      ∀ item memory, EndsWith (fun limit => (work limit busy item).outcome memory)
        ((resolver.inquiry item).run (resolver.answer opened) memory))
    {busy : List String} {opened : Catalog ι} (leaves : resolver.LeavesOpen busy opened)
    (id : String) (memory : Memory ε β) :
    EndsWith (fun limit => (resolver.lookUp busy id (work limit (id :: busy))).outcome memory)
      (resolver.answer opened id memory) := by
  -- A name that is not busy and not remembered leaves one item fewer open for the work on it.
  induction size : opened.size using Nat.strongRecOn generalizing busy opened id memory with
  | ind bound ih =>
      refine endsWith_lookUp leaves (fun item found => ?_) memory
      have smaller : (opened.erase id).size < bound := size ▸ Catalog.size_erase_lt found
      exact works _ _ (fun name store => ih _ smaller (leaves.begun found) name store rfl) item

end Resolver

end Tacit
