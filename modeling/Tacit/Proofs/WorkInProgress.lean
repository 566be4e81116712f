import Tacit.Proofs.Seeking
import Tacit.Proofs.Session

/-!
# Work in progress

While the answer to a name is worked out, the name is noted as busy, so that a search that comes
back to it fails instead of going round.  A `Desk` is all that is kept during the work: the busy
names, what is remembered, and a record of the names that were worked out.  All searches share one
desk: each notes its name, works, takes the note off again however the work ended, and remembers
the result.  Nothing in the text of `Resolver.attend` says that the desk is left as it was found,
or that the work comes to an end.

Both hold.  A search leaves the busy names as they were, wherever it was started from, and a whole
session works out no name twice, remembers and answers what `Resolver.run` remembers and answers,
and ends with no name busy.
-/

namespace Tacit

/-- A way to take the note of a name off the busy names. -/
structure Release where
  /-- The busy names without the note. -/
  apply : String → List String → List String
  /-- The note of the latest name is taken off, if the name is noted once. -/
  apply_cons : ∀ {id busy}, id ∉ busy → apply id (id :: busy) = busy

namespace Release

/-- Take the name off a set of names. -/
def byName : Release where
  apply id busy := busy.erase id
  apply_cons _ := List.erase_cons_head ..

/-- Take the topmost name off a pile of names, whichever it is. -/
def topmost : Release where
  apply _ busy := busy.tail
  apply_cons _ := rfl

end Release

/-- What is kept while names are being worked on. -/
structure Desk (ε β : Type) where
  /-- The names in progress, latest first. -/
  busy : List String
  /-- The answers that have been worked out. -/
  memory : Memory ε β
  /-- Each name as often as its item was worked on to the end, latest first. -/
  finished : List String

namespace Desk

variable {ε β : Type}

/-- The desk before any work. -/
def clear : Desk ε β := ⟨[], ∅, []⟩

/-- The desk once the work on a name has begun. -/
def start (desk : Desk ε β) (id : String) : Desk ε β :=
  { desk with busy := id :: desk.busy }

/-- The desk once the work on a name has come to a result. -/
def finish (desk : Desk ε β) (release : Release) (id : String) (result : Except ε β) :
    Desk ε β where
  busy := release.apply id desk.busy
  memory := desk.memory.insert id result
  finished := id :: desk.finished

/-- No name was worked out twice, exactly the names that were worked out are remembered, and they
have items. -/
structure Orderly {ι : Type} (items : Catalog ι) (desk : Desk ε β) : Prop where
  once : desk.finished.Nodup
  remembered : ∀ id, id ∈ desk.finished ↔ desk.memory.contains id = true
  known : ∀ id ∈ desk.finished, items.contains id = true

theorem orderly_clear {ι : Type} (items : Catalog ι) : (clear : Desk ε β).Orderly items where
  once := .nil
  remembered _ := by simp [clear, Catalog.contains]
  known _ member := absurd member List.not_mem_nil

/-- Nothing changes for the worse from one desk to a later one: the same names are busy, nothing
is forgotten or overwritten, and no name that is busy gets an answer. -/
structure Advances {ι : Type} (items : Catalog ι) (desk later : Desk ε β) : Prop where
  busy : later.busy = desk.busy
  grows : desk.memory.Grows later.memory
  waits : ∀ id ∈ desk.busy, desk.memory.get? id = none → later.memory.get? id = none
  finished : desk.finished <:+ later.finished
  orderly : desk.Orderly items → later.Orderly items

namespace Advances

variable {ι : Type} {items : Catalog ι} {desk between later : Desk ε β}

theorem refl (desk : Desk ε β) : desk.Advances items desk :=
  ⟨rfl, .refl _, fun _ _ absent => absent, List.suffix_rfl, id⟩

theorem trans (first : desk.Advances items between) (second : between.Advances items later) :
    desk.Advances items later where
  busy := second.busy.trans first.busy
  grows := first.grows.trans second.grows
  waits id isBusy absent := second.waits id (first.busy ▸ isBusy) (first.waits id isBusy absent)
  finished := first.finished.trans second.finished
  orderly inOrder := second.orderly (first.orderly inOrder)

/-- The work on a name from its start to its end. -/
theorem finish {id : String} {item : ι} (absent : desk.memory.get? id = none)
    (idle : id ∉ desk.busy) (found : items.get? id = some item)
    (advances : (desk.start id).Advances items later) (release : Release)
    (result : Except ε β) : desk.Advances items (later.finish release id result) where
  busy := by
    change release.apply id later.busy = desk.busy
    rw [advances.busy]
    exact release.apply_cons idle
  grows := advances.grows.insert absent result
  waits other isBusy missing := by
    have different : other ≠ id := ne_of_mem_of_not_mem isBusy idle
    have waiting := advances.waits other (List.mem_cons_of_mem id isBusy) missing
    exact (Catalog.get?_insert_of_ne _ result different).trans waiting
  finished := advances.finished.trans (List.suffix_cons id later.finished)
  orderly inOrder := by
    have before : later.Orderly items :=
      advances.orderly ⟨inOrder.once, inOrder.remembered, inOrder.known⟩
    -- The name was busy all the time, so nothing has given it an answer in the meantime.
    have unanswered : later.memory.get? id = none :=
      advances.waits id List.mem_cons_self absent
    have fresh : id ∉ later.finished := by
      rw [before.remembered, Catalog.contains, unanswered]
      exact Bool.false_ne_true
    refine ⟨List.nodup_cons.mpr ⟨fresh, before.once⟩, fun other => ?_, ?_⟩
    · by_cases same : other = id
      · simp [Desk.finish, same, Catalog.contains, Catalog.get?_insert_self]
      · have kept := Catalog.get?_insert_of_ne later.memory result same
        simpa [Desk.finish, same, Catalog.contains, kept] using before.remembered other
    · exact List.forall_mem_cons.mpr ⟨Catalog.contains_iff.mpr ⟨item, found⟩, before.known⟩

end Advances

end Desk

namespace Inquiry

variable {ε β α σ : Type} {answer : String → σ → Option (Except ε β × σ)}

/-- Go on with an answer, unless it is a failure. -/
def proceed (next : β → σ → Option (Except ε α × σ)) :
    Except ε β × σ → Option (Except ε α × σ)
  | (.ok value, state) => next value state
  | (.error error, state) => some (.error error, state)

/-- Run a search at a state that the answers to names share, unless one of them is cut off. -/
def runAt (answer : String → σ → Option (Except ε β × σ)) :
    Inquiry ε β α → σ → Option (Except ε α × σ)
  | .done result, state => some (result, state)
  | .ask id next, state => (answer id state).bind (proceed fun value => (next value).runAt answer)

theorem runAt_ask (answer : String → σ → Option (Except ε β × σ)) (id : String)
    (next : β → Inquiry ε β α) (state : σ) :
    (ask id next).runAt answer state =
      (answer id state).bind (proceed fun value => (next value).runAt answer) := rfl

/-- What every answer does to the state, at once or after others, a run does. -/
theorem runAt_induction (rel : σ → σ → Prop) (refl : ∀ state, rel state state)
    (trans : ∀ {earlier between later}, rel earlier between → rel between later →
      rel earlier later)
    (step : ∀ id state result later, answer id state = some (result, later) → rel state later)
    {search : Inquiry ε β α} {state later : σ} {result : Except ε α}
    (ran : search.runAt answer state = some (result, later)) : rel state later := by
  induction search generalizing state with
  | done found =>
      cases ran
      exact refl _
  | ask id next ih =>
      rw [runAt_ask] at ran
      obtain ⟨⟨error | value, between⟩, answered, goesOn⟩ := Option.bind_eq_some_iff.mp ran
      · cases goesOn
        exact step id state _ later answered
      · exact trans (step id state _ between answered) (ih value goesOn)

end Inquiry

namespace Resolver

variable {ι ε β α : Type} {resolver : Resolver ι ε β} {release : Release}

/-- The answer to a name, worked out at a desk.  The limit is the depth at which the work is cut
off; it plays no other part. -/
def attend (resolver : Resolver ι ε β) (release : Release) :
    Nat → String → Desk ε β → Option (Except ε β × Desk ε β)
  | 0, _, _ => none
  | limit + 1, id, desk =>
      match desk.memory.get? id with
      | some known => some (known, desk)
      | none =>
          if id ∈ desk.busy then some (.error (resolver.cycle id), desk)
          else match resolver.items.get? id with
            | none => some (.error (resolver.unknown id), desk)
            | some item =>
                ((resolver.inquiry item).runAt (resolver.attend release limit) (desk.start id)).map
                  fun outcome => (outcome.1, outcome.2.finish release id outcome.1)

/-- The desk is untouched, or the item of a name that is neither remembered nor busy was worked
on. -/
theorem attend_cases {limit : Nat} {id : String} {desk later : Desk ε β} {result : Except ε β}
    (attended : resolver.attend release limit id desk = some (result, later)) :
    later = desk ∨ ∃ smaller item after, limit = smaller + 1 ∧ desk.memory.get? id = none ∧
      id ∉ desk.busy ∧ resolver.items.get? id = some item ∧
      (resolver.inquiry item).runAt (resolver.attend release smaller) (desk.start id) =
        some (result, after) ∧ later = after.finish release id result := by
  cases limit with
  | zero => cases attended
  | succ smaller =>
      rw [attend] at attended
      split at attended
      next =>
        cases attended
        exact .inl rfl
      next absent =>
        split at attended
        next =>
          cases attended
          exact .inl rfl
        next idle =>
          split at attended
          next =>
            cases attended
            exact .inl rfl
          next item found =>
            obtain ⟨⟨found', after⟩, ran, same⟩ := Option.map_eq_some_iff.mp attended
            cases same
            exact .inr ⟨smaller, item, after, rfl, absent, idle, found, ran, rfl⟩

/-- Wherever a search for a name was started, it only advances the desk. -/
theorem attend_advances {limit : Nat} {id : String} {desk later : Desk ε β} {result : Except ε β}
    (attended : resolver.attend release limit id desk = some (result, later)) :
    desk.Advances resolver.items later := by
  induction limit generalizing id desk later result with
  | zero => cases attended
  | succ limit ih =>
      obtain rfl | ⟨smaller, item, after, depth, absent, idle, found, ran, rfl⟩ :=
        attend_cases attended
      · exact .refl later
      · cases depth
        have inside : (desk.start id).Advances resolver.items after :=
          Inquiry.runAt_induction (Desk.Advances resolver.items) .refl .trans
            (fun _ _ _ _ => ih) ran
        exact inside.finish absent idle found release result

theorem runAt_advances {limit : Nat} {search : Inquiry ε β α} {desk later : Desk ε β}
    {result : Except ε α}
    (ran : search.runAt (resolver.attend release limit) desk = some (result, later)) :
    desk.Advances resolver.items later :=
  Inquiry.runAt_induction (Desk.Advances resolver.items) .refl .trans
    (fun _ _ _ _ => attend_advances) ran

/-- The work at a desk ends with a result and with what is remembered then, while these names are
busy. -/
def EndsAt (work : Nat → Option (Except ε α × Desk ε β)) (busy : List String)
    (outcome : Except ε α × Memory ε β) : Prop :=
  ∃ finished, EndsWith work (outcome.1, ⟨busy, outcome.2, finished⟩)

theorem endsAt_runAt {busy : List String} {opened : Catalog ι}
    (attends : ∀ id memory finished,
      EndsAt (fun limit => resolver.attend release limit id ⟨busy, memory, finished⟩) busy
        (resolver.answer opened id memory))
    (search : Inquiry ε β α) (memory : Memory ε β) (finished : List String) :
    EndsAt (fun limit => search.runAt (resolver.attend release limit) ⟨busy, memory, finished⟩)
      busy (search.run (resolver.answer opened) memory) := by
  induction search generalizing memory finished with
  | done result => exact ⟨finished, .of_forall fun _ => rfl⟩
  | ask id next ih =>
      obtain ⟨meanwhile, attended⟩ := attends id memory finished
      rcases answered : resolver.answer opened id memory with ⟨error | value, later⟩
      · rw [answered] at attended
        simp only [Inquiry.runAt_ask, Inquiry.run, answered]
        exact ⟨meanwhile, attended.bind (.of_forall fun _ => rfl)⟩
      · rw [answered] at attended
        simp only [Inquiry.runAt_ask, Inquiry.run, answered]
        obtain ⟨last, ran⟩ := ih value later meanwhile
        exact ⟨last, attended.bind ran⟩

/-- The work on a name ends, and as the resolver answers. -/
theorem endsAt_attend (release : Release) {busy : List String} {opened : Catalog ι}
    (leaves : resolver.LeavesOpen busy opened) (id : String) (memory : Memory ε β)
    (finished : List String) :
    EndsAt (fun limit => resolver.attend release limit id ⟨busy, memory, finished⟩) busy
      (resolver.answer opened id memory) := by
  -- Each name that becomes busy leaves one item fewer open.
  induction size : opened.size using Nat.strongRecOn
    generalizing busy opened id memory finished with
  | ind bound ih =>
      have idles : opened.get? id = if id ∈ busy then none else resolver.items.get? id :=
        leaves.get? id
      cases known : memory.get? id with
      | some result =>
          rw [answer_of_known known]
          refine ⟨finished, .of_succ (.of_forall fun limit => ?_)⟩
          simp [attend, known]
      | none =>
          by_cases isBusy : id ∈ busy
          · rw [if_pos isBusy] at idles
            rw [answer_of_closed known idles, if_pos (leaves.known id isBusy)]
            refine ⟨finished, .of_succ (.of_forall fun limit => ?_)⟩
            simp [attend, known, isBusy]
          · rw [if_neg isBusy] at idles
            cases found : opened.get? id with
            | none =>
                rw [found] at idles
                have unlisted : resolver.items.contains id = false := by
                  rw [Catalog.contains, ← idles]
                  rfl
                rw [answer_of_closed known found, unlisted]
                refine ⟨finished, .of_succ (.of_forall fun limit => ?_)⟩
                simp [attend, known, isBusy, ← idles]
            | some item =>
                rw [found] at idles
                have smaller : (opened.erase id).size < bound := size ▸ Catalog.size_erase_lt found
                obtain ⟨last, ran⟩ := endsAt_runAt
                  (fun name store done => ih _ smaller (leaves.begun found) name store done rfl)
                  (resolver.inquiry item) memory finished
                rw [answer_of_found known found rfl]
                refine ⟨id :: last, .of_succ ?_⟩
                have finishes := ran.map fun outcome =>
                  (outcome.1, outcome.2.finish release id outcome.1)
                simpa [attend, known, isBusy, ← idles, Desk.start, Desk.finish,
                  release.apply_cons isBusy] using finishes

/-- Work with no name busy ends as a run of the resolver. -/
theorem endsAt_run (resolver : Resolver ι ε β) (release : Release) (search : Inquiry ε β α)
    (memory : Memory ε β) (finished : List String) :
    EndsAt (fun limit => search.runAt (resolver.attend release limit) ⟨[], memory, finished⟩) []
      (resolver.run search memory) :=
  endsAt_runAt (endsAt_attend release leavesOpen_nil) search memory finished

section Sessions

variable {κ : Type} {Answer : κ → Type} {search : (query : κ) → Inquiry ε β (Answer query)}

/-- The desk after queries one after another, unless the work is cut off. -/
def deskAfter (resolver : Resolver ι ε β) (release : Release)
    (search : (query : κ) → Inquiry ε β (Answer query)) (limit : Nat) (desk : Desk ε β)
    (queries : List κ) : Option (Desk ε β) :=
  queries.foldlM (fun desk query =>
    ((search query).runAt (resolver.attend release limit) desk).map Prod.snd) desk

theorem deskAfter_advances {limit : Nat} {queries : List κ} {desk later : Desk ε β}
    (worked : resolver.deskAfter release search limit desk queries = some later) :
    desk.Advances resolver.items later := by
  induction queries generalizing desk with
  | nil =>
      cases worked
      exact .refl later
  | cons query others ih =>
      obtain ⟨between, first, rest⟩ := Option.bind_eq_some_iff.mp worked
      obtain ⟨⟨result, _⟩, ran, rfl⟩ := Option.map_eq_some_iff.mp first
      exact (runAt_advances ran).trans (ih rest)

theorem endsWith_deskAfter (resolver : Resolver ι ε β) (release : Release)
    (search : (query : κ) → Inquiry ε β (Answer query)) (queries : List κ) (memory : Memory ε β)
    (finished : List String) :
    ∃ last, EndsWith
      (fun limit => resolver.deskAfter release search limit ⟨[], memory, finished⟩ queries)
      ⟨[], queries.foldl (fun memory query => (resolver.run (search query) memory).2) memory,
        last⟩ := by
  induction queries generalizing memory finished with
  | nil => exact ⟨finished, .of_forall fun _ => rfl⟩
  | cons query others ih =>
      obtain ⟨between, first⟩ := resolver.endsAt_run release (search query) memory finished
      obtain ⟨last, rest⟩ := ih (resolver.run (search query) memory).2 between
      exact ⟨last, (first.map Prod.snd).bind rest⟩

/-- The promises of one resolver to a session of queries, given what the session is to remember
after queries and to answer after them. -/
structure KeepsOrder (resolver : Resolver ι ε β) (release : Release)
    (search : (query : κ) → Inquiry ε β (Answer query)) (remembered : List κ → Memory ε β)
    (answerAfter : List κ → (query : κ) → Except ε (Answer query)) : Prop where
  /-- A search for a name, at any desk and so however deep inside other searches, puts the busy
  names back and changes no answer that is remembered. -/
  restores : ∀ limit id desk result later,
    resolver.attend release limit id desk = some (result, later) →
      later.busy = desk.busy ∧ desk.memory.Grows later.memory
  /-- All queries are worked off, one after another.  After each of them no name is busy, no name
  was worked out twice, and exactly the names that were worked out are remembered. -/
  worksOff : ∀ queries, ∃ desk,
    EndsWith (fun limit => resolver.deskAfter release search limit .clear queries) desk ∧
      desk.busy = [] ∧ desk.Orderly resolver.items ∧ desk.memory = remembered queries ∧
      ∀ query, ∃ later, later.busy = [] ∧
        EndsWith (fun limit => (search query).runAt (resolver.attend release limit) desk)
          (answerAfter queries query, later)
  /-- More queries change no answer that is remembered, and undo no record. -/
  keeps : ∀ limit queries more desk later,
    resolver.deskAfter release search limit .clear queries = some desk →
    resolver.deskAfter release search limit .clear (queries ++ more) = some later →
      desk.memory.Grows later.memory ∧ desk.finished <:+ later.finished

theorem keepsOrder (resolver : Resolver ι ε β) (release : Release)
    (search : (query : κ) → Inquiry ε β (Answer query)) :
    resolver.KeepsOrder release search
      (fun queries => queries.foldl (fun memory query => (resolver.run (search query) memory).2) ∅)
      (fun queries query => (resolver.run (search query)
        (queries.foldl (fun memory query => (resolver.run (search query) memory).2) ∅)).1) where
  restores _ _ _ _ _ attended :=
    ⟨(attend_advances attended).busy, (attend_advances attended).grows⟩
  worksOff queries := by
    obtain ⟨last, enough, reached⟩ := resolver.endsWith_deskAfter release search queries ∅ []
    have advances := deskAfter_advances (reached enough (Nat.le_refl enough))
    have orderly := advances.orderly (Desk.orderly_clear _)
    refine ⟨_, ⟨enough, reached⟩, rfl, orderly, rfl, fun query => ?_⟩
    obtain ⟨finished, answered⟩ := resolver.endsAt_run release (search query) _ last
    exact ⟨_, rfl, answered⟩
  keeps limit queries more desk later before after := by
    rw [deskAfter, List.foldlM_append] at after
    obtain ⟨between, first, rest⟩ := Option.bind_eq_some_iff.mp after
    cases before.symm.trans first
    have advances := deskAfter_advances rest
    exact ⟨advances.grows, advances.finished⟩

end Sessions

end Resolver

/-- Evaluators, which keep a set of busy names, and groupers, which keep a pile of them, leave no
name busy after any query, put the busy names back in every search on the way, never change an
answer they remember, and work out no name twice.  What they remember and answer is what
`Evaluator.remembered`, `Evaluator.answerAfter` and their like for groupers say. -/
theorem busy_names_restored_and_items_worked_out_once (evaluator : Evaluator) (grouper : Grouper) :
    evaluator.resolver.KeepsOrder .byName evaluator.search evaluator.remembered
      evaluator.answerAfter ∧
    grouper.resolver.KeepsOrder .topmost grouper.search grouper.remembered
      grouper.answerAfter :=
  ⟨evaluator.resolver.keepsOrder .byName evaluator.search,
    grouper.resolver.keepsOrder .topmost grouper.search⟩

end Tacit
