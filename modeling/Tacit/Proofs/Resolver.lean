import Tacit.Proofs.Catalog
import Tacit.Proofs.Inquiry

/-!
# Remembering changes no answer

What a search comes to can be said without a memory and without a guard against cycles: an answer
settles at some depth of items within items, or it never does.  This file shows that running a
search with any memory of earlier runs gives exactly the settled result, and the failure of a cycle
exactly where nothing settles.  Which name such a failure carries is the only thing that depends on
what is remembered.
-/

namespace Tacit.Resolver

/-- The answers that settle with at most `depth` items worked on inside one another. -/
def within {ι ε β : Type} (resolver : Resolver ι ε β) : Nat → String → Option (Except ε β)
  | 0, _ => none
  | depth + 1, id =>
      match resolver.items.get? id with
      | none => some (.error (resolver.unknown id))
      | some item => (resolver.inquiry item).follow (resolver.within depth)

/-- A search comes to this result at some depth. -/
def Settles {ι ε β α : Type} (resolver : Resolver ι ε β) (search : Inquiry ε β α)
    (result : Except ε α) : Prop :=
  ∃ depth, search.follow (resolver.within depth) = some result

/-- A search comes to a result at no depth. -/
def Hangs {ι ε β α : Type} (resolver : Resolver ι ε β) (search : Inquiry ε β α) : Prop :=
  ∀ depth, search.follow (resolver.within depth) = none

/-- Equal results, or two cycles whatever names they carry. -/
def Alike {ι ε β α : Type} (resolver : Resolver ι ε β) (left right : Except ε α) : Prop :=
  left = right ∨
    ∃ first second, left = .error (resolver.cycle first) ∧ right = .error (resolver.cycle second)

/-- A result tells what a search comes to, up to the name in a cycle. -/
def Accounts {ι ε β α : Type} (resolver : Resolver ι ε β) (search : Inquiry ε β α)
    (result : Except ε α) : Prop :=
  (∃ settled, resolver.Settles search settled ∧ resolver.Alike result settled) ∨
    (resolver.Hangs search ∧ ∃ id, result = .error (resolver.cycle id))

/-- All that is remembered is true. -/
def Faithful {ι ε β : Type} (resolver : Resolver ι ε β) (memory : Memory ε β) : Prop :=
  ∀ id result, memory.get? id = some result → resolver.Accounts (.get id) result

section Depth

variable {ι ε β α : Type} {resolver : Resolver ι ε β}

theorem within_item {id : String} {item : ι} (found : resolver.items.get? id = some item)
    (depth : Nat) :
    resolver.within (depth + 1) id = (resolver.inquiry item).follow (resolver.within depth) := by
  rw [within, found]

theorem within_unknown {id : String} (absent : resolver.items.get? id = none) (depth : Nat) :
    resolver.within (depth + 1) id = some (.error (resolver.unknown id)) := by
  rw [within, absent]

/-- A value settles for an item, from what has settled before. -/
theorem item_of_within {depth : Nat} {id : String} {value : β}
    (settled : resolver.within depth id = some (.ok value)) :
    ∃ item earlier, earlier < depth ∧ resolver.items.get? id = some item ∧
      (resolver.inquiry item).follow (resolver.within earlier) = some (.ok value) := by
  cases depth with
  | zero => contradiction
  | succ earlier =>
      cases found : resolver.items.get? id with
      | none => simp [within_unknown found] at settled
      | some item =>
          rw [within_item found] at settled
          exact ⟨item, earlier, Nat.lt_succ_self earlier, rfl, settled⟩

/-- What has settled stays settled at the next depth. -/
theorem within_succ {depth : Nat} {id : String} {result : Except ε β}
    (settled : resolver.within depth id = some result) :
    resolver.within (depth + 1) id = some result := by
  induction depth generalizing id result with
  | zero => contradiction
  | succ depth ih =>
      cases found : resolver.items.get? id with
      | none =>
          rw [within_unknown found] at settled ⊢
          exact settled
      | some item =>
          rw [within_item found] at settled ⊢
          exact Inquiry.follow_mono (fun name answer => ih) settled

theorem within_mono {shallow deep : Nat} (deeper : shallow ≤ deep) {id : String}
    {result : Except ε β} (settled : resolver.within shallow id = some result) :
    resolver.within deep id = some result := by
  induction deeper with
  | refl => exact settled
  | step _ ih => exact within_succ ih

theorem follow_within_mono {shallow deep : Nat} (deeper : shallow ≤ deep)
    {search : Inquiry ε β α} {result : Except ε α}
    (settled : search.follow (resolver.within shallow) = some result) :
    search.follow (resolver.within deep) = some result :=
  Inquiry.follow_mono (fun _ _ => within_mono deeper) settled

end Depth

section Settling

variable {ι ε β α γ : Type} {resolver : Resolver ι ε β}

/-- A search comes to one result only. -/
theorem Settles.unique {search : Inquiry ε β α} {left right : Except ε α}
    (first : resolver.Settles search left) (second : resolver.Settles search right) :
    left = right := by
  obtain ⟨shallow, atShallow⟩ := first
  obtain ⟨deep, atDeep⟩ := second
  have leftHere := follow_within_mono (Nat.le_max_left shallow deep) atShallow
  have rightHere := follow_within_mono (Nat.le_max_right shallow deep) atDeep
  exact Option.some.inj (leftHere.symm.trans rightHere)

theorem Settles.not_hangs {search : Inquiry ε β α} {result : Except ε α}
    (settles : resolver.Settles search result) : ¬ resolver.Hangs search := by
  obtain ⟨depth, settled⟩ := settles
  intro hangs
  rw [hangs depth] at settled
  contradiction

theorem settles_done (result : Except ε α) :
    resolver.Settles (.done result : Inquiry ε β α) result :=
  ⟨0, rfl⟩

/-- A named item has the result of its own search. -/
theorem settles_get_iff {id : String} {item : ι} (found : resolver.items.get? id = some item)
    {result : Except ε β} :
    resolver.Settles (.get id) result ↔ resolver.Settles (resolver.inquiry item) result := by
  constructor
  · rintro ⟨depth, settled⟩
    rw [Inquiry.follow_get] at settled
    have deeper := within_succ settled
    rw [within_item found] at deeper
    exact ⟨depth, deeper⟩
  · rintro ⟨depth, settled⟩
    refine ⟨depth + 1, ?_⟩
    rw [Inquiry.follow_get, within_item found]
    exact settled

theorem hangs_get {id : String} {item : ι} (found : resolver.items.get? id = some item)
    (hangs : resolver.Hangs (resolver.inquiry item)) : resolver.Hangs (.get id) := by
  intro depth
  rw [Inquiry.follow_get]
  cases depth with
  | zero => rfl
  | succ depth =>
      rw [within_item found]
      exact hangs depth

theorem settles_unknown {id : String} (absent : resolver.items.get? id = none) :
    resolver.Settles (.get id) (.error (resolver.unknown id)) := by
  refine ⟨1, ?_⟩
  rw [Inquiry.follow_get]
  exact within_unknown absent 0

theorem settles_ask_ok {id : String} {value : β} {next : β → Inquiry ε β α}
    {result : Except ε α} (answered : resolver.Settles (.get id) (.ok value))
    (later : resolver.Settles (next value) result) : resolver.Settles (.ask id next) result := by
  obtain ⟨shallow, atShallow⟩ := answered
  obtain ⟨deep, atDeep⟩ := later
  rw [Inquiry.follow_get] at atShallow
  refine ⟨max shallow deep, ?_⟩
  rw [Inquiry.follow_ask_ok (within_mono (Nat.le_max_left shallow deep) atShallow)]
  exact follow_within_mono (Nat.le_max_right shallow deep) atDeep

theorem settles_ask_error {id : String} {error : ε} (next : β → Inquiry ε β α)
    (failed : resolver.Settles (.get id) (.error error)) :
    resolver.Settles (.ask id next) (.error error) := by
  obtain ⟨depth, settled⟩ := failed
  rw [Inquiry.follow_get] at settled
  exact ⟨depth, Inquiry.follow_ask_error settled next⟩

theorem hangs_ask {id : String} (next : β → Inquiry ε β α)
    (hangs : resolver.Hangs (.get id)) : resolver.Hangs (.ask id next) := by
  intro depth
  have unanswered := hangs depth
  rw [Inquiry.follow_get] at unanswered
  exact Inquiry.follow_ask_none unanswered next

theorem hangs_ask_ok {id : String} {value : β} {next : β → Inquiry ε β α}
    (answered : resolver.Settles (.get id) (.ok value)) (hangs : resolver.Hangs (next value)) :
    resolver.Hangs (.ask id next) := by
  intro depth
  rcases here : resolver.within depth id with _ | error | answer
  · exact Inquiry.follow_ask_none here next
  · have also : resolver.Settles (.get id) (.error error) := ⟨depth, by simpa using here⟩
    cases also.unique answered
  · have also : resolver.Settles (.get id) (.ok answer) := ⟨depth, by simpa using here⟩
    cases also.unique answered
    rw [Inquiry.follow_ask_ok here]
    exact hangs depth

/-- A search in two parts finds a value if both parts do. -/
theorem settles_bind_ok {search : Inquiry ε β α} {next : α → Inquiry ε β γ} {value : γ} :
    resolver.Settles (search >>= next) (.ok value) ↔
      ∃ between, resolver.Settles search (.ok between) ∧
        resolver.Settles (next between) (.ok value) := by
  constructor
  · rintro ⟨depth, settled⟩
    obtain ⟨between, first, second⟩ := Inquiry.follow_bind_eq_ok.mp settled
    exact ⟨between, ⟨depth, first⟩, ⟨depth, second⟩⟩
  · rintro ⟨between, ⟨shallow, first⟩, ⟨deep, second⟩⟩
    refine ⟨max shallow deep, Inquiry.follow_bind_eq_ok.mpr ⟨between, ?_, ?_⟩⟩
    · exact follow_within_mono (Nat.le_max_left shallow deep) first
    · exact follow_within_mono (Nat.le_max_right shallow deep) second

/-- What is claimed of a search holds of the value it settles on. -/
theorem Settles.of_always {allowed : String → Prop} {claim : α → Prop}
    {search : Inquiry ε β α} {value : α} (settles : resolver.Settles search (.ok value))
    (holds : search.Always allowed (fun id answer => resolver.Settles (.get id) (.ok answer))
      claim) : claim value := by
  obtain ⟨depth, settled⟩ := settles
  refine holds.of_follow (fun id answer answered => ⟨depth, ?_⟩) settled
  rw [Inquiry.follow_get]
  exact answered

/-- Whatever a search finds from settled answers is what it settles on. -/
theorem always_settles (search : Inquiry ε β α) :
    search.Always (fun _ => True) (fun id answer => resolver.Settles (.get id) (.ok answer))
      fun value => resolver.Settles search (.ok value) := by
  induction search with
  | done result => exact Inquiry.always_lift fun value found => found ▸ settles_done result
  | ask id next ih =>
      refine ⟨trivial, fun answer answered => (ih answer).imp fun value later => ?_⟩
      exact settles_ask_ok answered later

/-- A value that is found from settled answers settles. -/
theorem settles_of_follow {answers : String → Option (Except ε β)} {search : Inquiry ε β α}
    {value : α}
    (answered : ∀ id answer, answers id = some (.ok answer) →
      resolver.Settles (.get id) (.ok answer))
    (found : search.follow answers = some (.ok value)) : resolver.Settles search (.ok value) :=
  (always_settles search).of_follow answered found

end Settling

section Memory

variable {ι ε β α : Type} {resolver : Resolver ι ε β}

theorem Alike.symm {left right : Except ε α} (alike : resolver.Alike left right) :
    resolver.Alike right left := by
  obtain same | ⟨first, second, leftCycle, rightCycle⟩ := alike
  · exact .inl same.symm
  · exact .inr ⟨second, first, rightCycle, leftCycle⟩

theorem Alike.trans {left middle right : Except ε α} (first : resolver.Alike left middle)
    (second : resolver.Alike middle right) : resolver.Alike left right := by
  obtain rfl | ⟨leftName, middleName, leftCycle, middleCycle⟩ := first
  · exact second
  · obtain rfl | ⟨_, rightName, _, rightCycle⟩ := second
    · exact .inr ⟨leftName, middleName, leftCycle, middleCycle⟩
    · exact .inr ⟨leftName, rightName, leftCycle, rightCycle⟩

theorem Alike.eq_ok {left : Except ε α} {value : α} (alike : resolver.Alike left (.ok value)) :
    left = .ok value := by
  obtain same | ⟨_, _, _, impossible⟩ := alike
  · exact same
  · contradiction

/-- Two accounts of one search differ at most in the name of a cycle. -/
theorem Accounts.alike {search : Inquiry ε β α} {left right : Except ε α}
    (first : resolver.Accounts search left) (second : resolver.Accounts search right) :
    resolver.Alike left right := by
  obtain ⟨settled, settles, leftAlike⟩ | ⟨hangs, leftName, leftCycle⟩ := first
  · obtain ⟨other, otherSettles, rightAlike⟩ | ⟨hangs, _⟩ := second
    · rw [settles.unique otherSettles] at leftAlike
      exact leftAlike.trans rightAlike.symm
    · exact absurd hangs settles.not_hangs
  · obtain ⟨other, otherSettles, _⟩ | ⟨_, rightName, rightCycle⟩ := second
    · exact absurd hangs otherSettles.not_hangs
    · exact .inr ⟨leftName, rightName, leftCycle, rightCycle⟩

theorem Settles.accounts {search : Inquiry ε β α} {result : Except ε α}
    (settles : resolver.Settles search result) : resolver.Accounts search result :=
  .inl ⟨result, settles, .inl rfl⟩

/-- An account of a value is the value that the search settles on. -/
theorem Accounts.settles {search : Inquiry ε β α} {value : α}
    (accounts : resolver.Accounts search (.ok value)) : resolver.Settles search (.ok value) := by
  obtain ⟨settled, settles, alike⟩ | ⟨_, _, impossible⟩ := accounts
  · rwa [alike.symm.eq_ok] at settles
  · contradiction

/-- An account of the search of an item is an account of its name. -/
theorem Accounts.get {id : String} {item : ι} (found : resolver.items.get? id = some item)
    {result : Except ε β} (accounts : resolver.Accounts (resolver.inquiry item) result) :
    resolver.Accounts (.get id) result := by
  obtain ⟨settled, settles, alike⟩ | ⟨hangs, cycle⟩ := accounts
  · exact .inl ⟨settled, (settles_get_iff found).mpr settles, alike⟩
  · exact .inr ⟨hangs_get found hangs, cycle⟩

theorem Accounts.ask_ok {id : String} {value : β} {next : β → Inquiry ε β α}
    {result : Except ε α} (answered : resolver.Accounts (.get id) (.ok value))
    (accounts : resolver.Accounts (next value) result) :
    resolver.Accounts (.ask id next) result := by
  obtain ⟨settled, settles, alike⟩ | ⟨hangs, cycle⟩ := accounts
  · exact .inl ⟨settled, settles_ask_ok answered.settles settles, alike⟩
  · exact .inr ⟨hangs_ask_ok answered.settles hangs, cycle⟩

theorem Accounts.ask_error {id : String} {error : ε} (next : β → Inquiry ε β α)
    (failed : resolver.Accounts (.get id) (.error error)) :
    resolver.Accounts (.ask id next) (.error error) := by
  obtain ⟨settled, settles, same | ⟨first, second, cycle, otherCycle⟩⟩ | ⟨hangs, name, cycle⟩ :=
    failed
  · rw [← same] at settles
    exact (settles_ask_error next settles).accounts
  · rw [otherCycle] at settles
    refine .inl ⟨_, settles_ask_error next settles, .inr ⟨first, second, ?_, rfl⟩⟩
    rw [Except.error.inj cycle]
  · refine .inr ⟨hangs_ask next hangs, name, ?_⟩
    rw [Except.error.inj cycle]

theorem faithful_empty : resolver.Faithful ∅ := by
  intro id result known
  simp at known

theorem Faithful.insert {memory : Memory ε β} (faithful : resolver.Faithful memory)
    {id : String} {result : Except ε β} (accounts : resolver.Accounts (.get id) result) :
    resolver.Faithful (memory.insert id result) :=
  Catalog.forall_get?_insert faithful accounts

/-- While the items outside `opened` are worked on, they wait for this search: none of them settles
at a depth where the search has not come to a result before. -/
structure Underway (resolver : Resolver ι ε β) (opened : Catalog ι) (search : Inquiry ε β α) :
    Prop where
  /-- Open items are items. -/
  known : ∀ id item, opened.get? id = some item → resolver.items.get? id = some item
  /-- Items that are worked on settle only after the search. -/
  waiting : ∀ id, resolver.items.contains id = true → opened.get? id = none →
    ∀ depth, resolver.within depth id ≠ none →
      ∃ earlier < depth, search.follow (resolver.within earlier) ≠ none

theorem underway_items (search : Inquiry ε β α) :
    resolver.Underway resolver.items search where
  known _ _ found := found
  waiting id contained absent := by
    obtain ⟨item, found⟩ := Catalog.contains_iff.mp contained
    rw [found] at absent
    contradiction

/-- The items that wait for a search wait for the name it asks. -/
theorem Underway.asked {opened : Catalog ι} {id : String} {next : β → Inquiry ε β α}
    (underway : resolver.Underway opened (.ask id next)) : resolver.Underway opened (.get id) where
  known := underway.known
  waiting name contained absent depth settled := by
    obtain ⟨earlier, before, reached⟩ := underway.waiting name contained absent depth settled
    refine ⟨earlier, before, fun unanswered => reached ?_⟩
    rw [Inquiry.follow_get] at unanswered
    exact Inquiry.follow_ask_none unanswered next

/-- Once a name is answered, they wait for the rest of the search. -/
theorem Underway.answered {opened : Catalog ι} {id : String} {next : β → Inquiry ε β α}
    (underway : resolver.Underway opened (.ask id next)) {value : β}
    (answered : resolver.Settles (.get id) (.ok value)) :
    resolver.Underway opened (next value) where
  known := underway.known
  waiting name contained absent depth settled := by
    obtain ⟨earlier, before, reached⟩ := underway.waiting name contained absent depth settled
    refine ⟨earlier, before, ?_⟩
    rcases here : resolver.within earlier id with _ | error | answer
    · exact absurd (Inquiry.follow_ask_none here next) reached
    · have also : resolver.Settles (.get id) (.error error) := ⟨earlier, by simpa using here⟩
      cases also.unique answered
    · have also : resolver.Settles (.get id) (.ok answer) := ⟨earlier, by simpa using here⟩
      cases also.unique answered
      rwa [Inquiry.follow_ask_ok here] at reached

/-- When work on a name begins, its item and all that waited for it wait for the search of the
item. -/
theorem Underway.begun {opened : Catalog ι} {id : String} {item : ι}
    (underway : resolver.Underway opened (.get id)) (found : opened.get? id = some item) :
    resolver.Underway (opened.erase id) (resolver.inquiry item) where
  known name other still := underway.known name other (Catalog.get?_of_get?_erase still)
  waiting name contained absent depth settled := by
    have itemFound := underway.known id item found
    have inside : ∀ level, resolver.within level id ≠ none →
        ∃ below < level, (resolver.inquiry item).follow (resolver.within below) ≠ none := by
      intro level reached
      cases level with
      | zero => exact absurd rfl reached
      | succ below =>
          rw [within_item itemFound] at reached
          exact ⟨below, Nat.lt_succ_self below, reached⟩
    by_cases same : name = id
    · exact inside depth (same ▸ settled)
    · rw [Catalog.get?_erase_of_ne opened same] at absent
      obtain ⟨earlier, before, reached⟩ := underway.waiting name contained absent depth settled
      rw [Inquiry.follow_get] at reached
      obtain ⟨below, belowEarlier, reachedBelow⟩ := inside earlier reached
      exact ⟨below, Nat.lt_trans belowEarlier before, reachedBelow⟩

/-- A name that waits for itself never settles. -/
theorem Underway.hangs {opened : Catalog ι} {id : String}
    (underway : resolver.Underway opened (.get id))
    (contained : resolver.items.contains id = true) (absent : opened.get? id = none) :
    resolver.Hangs (.get id) := by
  intro depth
  rw [Inquiry.follow_get]
  induction depth using Nat.strongRecOn with
  | ind depth ih =>
      cases settled : resolver.within depth id with
      | none => rfl
      | some result =>
          have reachedHere : resolver.within depth id ≠ none := by simp [settled]
          obtain ⟨earlier, before, reached⟩ :=
            underway.waiting id contained absent depth reachedHere
          rw [Inquiry.follow_get] at reached
          exact absurd (ih earlier before) reached

/-- Running a search keeps to the truth as long as answering names does. -/
theorem run_accounts {opened : Catalog ι}
    (answering : ∀ id memory, resolver.Underway opened (.get id) → resolver.Faithful memory →
      resolver.Accounts (.get id) (resolver.answer opened id memory).1 ∧
        resolver.Faithful (resolver.answer opened id memory).2)
    {search : Inquiry ε β α} (underway : resolver.Underway opened search) {memory : Memory ε β}
    (faithful : resolver.Faithful memory) :
    resolver.Accounts search (search.run (resolver.answer opened) memory).1 ∧
      resolver.Faithful (search.run (resolver.answer opened) memory).2 := by
  induction search generalizing memory with
  | done result => exact ⟨(settles_done result).accounts, faithful⟩
  | ask id next ih =>
      obtain ⟨accounts, later⟩ := answering id memory underway.asked faithful
      rcases answered : resolver.answer opened id memory with ⟨error | value, remembered⟩
      · rw [answered] at accounts later
        simp only [Inquiry.run, answered]
        exact ⟨accounts.ask_error next, later⟩
      · rw [answered] at accounts later
        simp only [Inquiry.run, answered]
        obtain ⟨rest, kept⟩ := ih value (underway.answered accounts.settles) later
        exact ⟨accounts.ask_ok rest, kept⟩

/-- Answering a name keeps to the truth, whatever is being worked on and remembered. -/
theorem answer_accounts {opened : Catalog ι} {id : String}
    (underway : resolver.Underway opened (.get id)) {memory : Memory ε β}
    (faithful : resolver.Faithful memory) :
    resolver.Accounts (.get id) (resolver.answer opened id memory).1 ∧
      resolver.Faithful (resolver.answer opened id memory).2 := by
  induction size : opened.size using Nat.strongRecOn generalizing opened id memory with
  | ind bound ih =>
      rw [answer]
      split
      next known remembered => exact ⟨faithful id known remembered, faithful⟩
      next unknown =>
        split
        next item found =>
          have smaller : (opened.erase id).size < bound := size ▸ Catalog.size_erase_lt found
          have answering := fun name (store : Memory ε β)
              (inside : resolver.Underway (opened.erase id) (.get name))
              (trusted : resolver.Faithful store) => ih _ smaller inside trusted rfl
          obtain ⟨accounts, later⟩ := run_accounts answering (underway.begun found) faithful
          have named := accounts.get (underway.known id item found)
          exact ⟨named, later.insert named⟩
        next closed =>
          refine ⟨?_, faithful⟩
          by_cases contained : resolver.items.contains id = true
          · rw [if_pos contained]
            exact .inr ⟨underway.hangs contained closed, id, rfl⟩
          · rw [if_neg contained]
            have absent : resolver.items.get? id = none := by
              simpa [Catalog.contains] using contained
            exact (settles_unknown absent).accounts

/-- With any true memory a search gives what it comes to, and only truth is added. -/
theorem run_spec (search : Inquiry ε β α) {memory : Memory ε β}
    (faithful : resolver.Faithful memory) :
    resolver.Accounts search (resolver.run search memory).1 ∧
      resolver.Faithful (resolver.run search memory).2 :=
  run_accounts (fun _ _ underway => answer_accounts underway) (underway_items search) faithful

/-- A run finds exactly the values that the search settles on, whatever is remembered. -/
theorem run_eq_ok_iff (search : Inquiry ε β α) {memory : Memory ε β}
    (faithful : resolver.Faithful memory) {value : α} :
    (resolver.run search memory).1 = .ok value ↔ resolver.Settles search (.ok value) := by
  have accounts := (run_spec search faithful).1
  constructor
  · intro found
    rw [found] at accounts
    exact accounts.settles
  · intro settles
    exact (accounts.alike settles.accounts).eq_ok

/-- What is remembered shows at most in the name of a cycle. -/
theorem run_alike (search : Inquiry ε β α) {left right : Memory ε β}
    (leftFaithful : resolver.Faithful left) (rightFaithful : resolver.Faithful right) :
    resolver.Alike (resolver.run search left).1 (resolver.run search right).1 :=
  (run_spec search leftFaithful).1.alike (run_spec search rightFaithful).1

end Memory

section Agreement

variable {ι ε β α : Type}

/-- Two resolvers with the same items under some names, whose searches keep to these names. -/
structure AgreeOn (domain : String → Prop) (left right : Resolver ι ε β) : Prop where
  items : ∀ id, domain id → left.items.get? id = right.items.get? id
  inquiry : ∀ item, left.inquiry item = right.inquiry item
  inside : ∀ id item, domain id → left.items.get? id = some item →
    (left.inquiry item).AsksOnly domain
  cycle : left.cycle = right.cycle
  unknown : left.unknown = right.unknown

variable {domain : String → Prop} {left right : Resolver ι ε β}

theorem AgreeOn.within_eq (agree : AgreeOn domain left right) (depth : Nat) {id : String}
    (member : domain id) : left.within depth id = right.within depth id := by
  induction depth generalizing id with
  | zero => rfl
  | succ depth ih =>
      cases found : left.items.get? id with
      | none =>
          have alsoAbsent : right.items.get? id = none := agree.items id member ▸ found
          rw [within_unknown found, within_unknown alsoAbsent, agree.unknown]
      | some item =>
          have alsoFound : right.items.get? id = some item := agree.items id member ▸ found
          rw [within_item found, within_item alsoFound, ← agree.inquiry]
          exact (agree.inside id item member found).follow_congr fun _ => ih

/-- A search inside the common names has the same accounts in both. -/
theorem AgreeOn.accounts (agree : AgreeOn domain left right) {search : Inquiry ε β α}
    (inside : search.AsksOnly domain) {result : Except ε α}
    (accounts : left.Accounts search result) : right.Accounts search result := by
  have same : ∀ depth, search.follow (left.within depth) = search.follow (right.within depth) :=
    fun depth => inside.follow_congr fun _ => agree.within_eq depth
  obtain ⟨settled, ⟨depth, found⟩, alike⟩ | ⟨hangs, cycle⟩ := accounts
  · refine .inl ⟨settled, ⟨depth, same depth ▸ found⟩, ?_⟩
    rwa [Alike, agree.cycle] at alike
  · refine .inr ⟨fun depth => same depth ▸ hangs depth, ?_⟩
    rwa [agree.cycle] at cycle

end Agreement

end Tacit.Resolver
