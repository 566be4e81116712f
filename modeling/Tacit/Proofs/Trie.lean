import Tacit.Keyword
import Tacit.Trie

/-!
# The longest spelling on a path

A trie is read as the function from paths to the spellings that end there.  Insertion changes this
function at one path, so a trie of spellings holds each at the path of its own characters and
nothing elsewhere, in whichever order they come.  Walking down along an input then finds the longest
spelling it starts with, and the bytes counted on the way are those of the spelling.
-/

namespace Tacit.Trie

/-- The spelling that ends at a path. -/
def spellingAt? : Trie → List Char → Option String
  | trie, [] => trie.spelling?
  | trie, char :: path => (trie.branch? char).bind fun below => below.spellingAt? path

theorem lookup_filter_of_ne {α : Type} {removed read : Char} (entries : List (Char × α))
    (different : read ≠ removed) :
    (entries.filter fun entry => entry.1 ≠ removed).lookup read = entries.lookup read := by
  induction entries with
  | nil => rfl
  | cons entry rest ih =>
      by_cases same : entry.1 = removed
      · have unlike : (read == entry.1) = false := beq_false_of_ne (same ▸ different)
        rw [List.filter_cons_of_neg (by simpa using same), ih, List.lookup_cons, unlike]
      · rw [List.filter_cons_of_pos (by simpa using same), List.lookup_cons, List.lookup_cons, ih]

@[simp]
theorem spellingAt?_empty (path : List Char) : empty.spellingAt? path = none := by
  cases path <;> rfl

theorem spellingAt?_insertAt_self (spelling : String) (path : List Char) (trie : Trie) :
    (insertAt spelling path trie).spellingAt? path = some spelling := by
  induction path generalizing trie with
  | nil =>
      obtain ⟨here, branches⟩ := trie
      rfl
  | cons char path ih =>
      obtain ⟨here, branches⟩ := trie
      simpa [insertAt, spellingAt?, branch?] using ih ((branches.lookup char).getD empty)

theorem spellingAt?_insertAt_of_ne (spelling : String) (path read : List Char) (trie : Trie)
    (different : read ≠ path) :
    (insertAt spelling path trie).spellingAt? read = trie.spellingAt? read := by
  induction path generalizing trie read with
  | nil =>
      obtain ⟨here, branches⟩ := trie
      cases read with
      | nil => exact absurd rfl different
      | cons next read => rfl
  | cons char path ih =>
      obtain ⟨here, branches⟩ := trie
      cases read with
      | nil => rfl
      | cons next read =>
          by_cases same : next = char
          · subst same
            have apart : read ≠ path := fun same => different (by rw [same])
            have below := ih read ((branches.lookup next).getD empty) apart
            cases found : branches.lookup next with
            | none => simpa [insertAt, spellingAt?, branch?, found] using below
            | some child => simpa [insertAt, spellingAt?, branch?, found] using below
          · have unlike : (next == char) = false := beq_false_of_ne same
            simp only [insertAt, spellingAt?, branch?, List.lookup_cons, unlike,
              lookup_filter_of_ne branches same]

theorem spellingAt?_insert (trie : Trie) (spelling : String) (path : List Char) :
    (trie.insert spelling).spellingAt? path =
      if String.ofList path = spelling then some spelling else trie.spellingAt? path := by
  split
  next same =>
    subst same
    rw [insert, String.toList_ofList]
    exact spellingAt?_insertAt_self _ path trie
  next different =>
    refine spellingAt?_insertAt_of_ne spelling _ path trie fun same => different ?_
    rw [same, String.ofList_toList]

/-- A trie holds each listed spelling at the path of its characters, and nothing elsewhere. -/
theorem spellingAt?_ofList (spellings : List String) (path : List Char) :
    (ofList spellings).spellingAt? path =
      if String.ofList path ∈ spellings then some (String.ofList path) else none := by
  suffices general : ∀ trie : Trie, (spellings.foldl insert trie).spellingAt? path =
      if String.ofList path ∈ spellings then some (String.ofList path)
      else trie.spellingAt? path by
    rw [ofList, general, spellingAt?_empty]
  induction spellings with
  | nil => simp
  | cons first rest ih =>
      intro trie
      rw [List.foldl_cons, ih, spellingAt?_insert]
      by_cases here : String.ofList path = first
      · simp [here]
      · simp [here]

/-- A walk that finds nothing passes no spelling. -/
theorem spellingAt?_of_longest?_eq_none {trie : Trie} {input path : List Char}
    (nothing : trie.longest? input = none) (onPath : path <+: input) (below : path ≠ []) :
    trie.spellingAt? path = none := by
  induction input generalizing trie path with
  | nil => exact absurd (List.prefix_nil.mp onPath) below
  | cons char input ih =>
      obtain rfl | ⟨path, rfl, further⟩ := List.prefix_cons_iff.mp onPath
      · exact absurd rfl below
      rw [longest?] at nothing
      rw [spellingAt?]
      cases found : trie.branch? char with
      | none => rfl
      | some child =>
          simp only [found, Option.orElse_eq_orElse, Option.orElse_eq_or, Option.map_eq_none_iff,
            Option.or_eq_none_iff] at nothing
          cases path with
          | nil => exact nothing.2
          | cons next path => exact ih nothing.1 further (List.cons_ne_nil next path)

theorem spellingAt?_of_branch? {trie child : Trie} {char : Char}
    (here : trie.branch? char = some child) (path : List Char) :
    trie.spellingAt? (char :: path) = child.spellingAt? path := by
  rw [spellingAt?, here]
  rfl

theorem utf8ByteSize_ofList_cons (char : Char) (path : List Char) :
    (String.ofList (char :: path)).utf8ByteSize =
      char.utf8Size + (String.ofList path).utf8ByteSize := by
  rw [String.ofList_cons, String.utf8ByteSize_append, String.utf8ByteSize_singleton]

/-- What a walk finds after one step: what the walk from there finds, or else what ends there. -/
theorem exists_branch_of_longest? {trie : Trie} {char : Char} {input : List Char}
    {spelling : String} {size : Nat}
    (found : trie.longest? (char :: input) = some (spelling, size)) :
    ∃ child further, trie.branch? char = some child ∧ size = char.utf8Size + further ∧
      (child.longest? input = some (spelling, further) ∨
        child.longest? input = none ∧ child.spelling? = some spelling ∧ further = 0) := by
  rw [longest?] at found
  cases here : trie.branch? char with
  | none => simp [here] at found
  | some child =>
      simp only [here, Option.orElse_eq_orElse, Option.orElse_eq_or] at found
      obtain ⟨⟨_, further⟩, passed, counted⟩ := Option.map_eq_some_iff.mp found
      cases counted
      refine ⟨child, further, rfl, rfl, ?_⟩
      obtain deeper | ⟨nothing, ending⟩ := Option.or_eq_some_iff.mp passed
      · exact .inl deeper
      · obtain ⟨_, endsHere, ended⟩ := Option.map_eq_some_iff.mp ending
        cases ended
        exact .inr ⟨nothing, endsHere, rfl⟩

/-- A walk that finds a spelling passes it at the end of a path, whose bytes it has counted, and
none further down. -/
theorem exists_path_of_longest? {trie : Trie} {input : List Char} {spelling : String} {size : Nat}
    (found : trie.longest? input = some (spelling, size)) :
    ∃ path, path ≠ [] ∧ path <+: input ∧ trie.spellingAt? path = some spelling ∧
      size = (String.ofList path).utf8ByteSize ∧
      ∀ other, other <+: input → path.length < other.length → trie.spellingAt? other = none := by
  induction input generalizing trie size with
  | nil => contradiction
  | cons char input ih =>
      obtain ⟨child, further, here, rfl, passed⟩ := exists_branch_of_longest? found
      obtain ⟨below, onPath, ends, measured, beyond⟩ : ∃ below, below <+: input ∧
          child.spellingAt? below = some spelling ∧
          further = (String.ofList below).utf8ByteSize ∧
          ∀ other, other <+: input → below.length < other.length →
            child.spellingAt? other = none := by
        obtain deeper | ⟨nothing, ending, rfl⟩ := passed
        · obtain ⟨below, _, facts⟩ := ih deeper
          exact ⟨below, facts⟩
        · refine ⟨[], List.nil_prefix, ending, rfl, fun other inInput longer => ?_⟩
          exact spellingAt?_of_longest?_eq_none nothing inInput (List.ne_nil_of_length_pos longer)
      refine ⟨char :: below, List.cons_ne_nil char below, List.cons_prefix_cons.mpr ⟨rfl, onPath⟩,
        ?_, ?_, fun other inInput longer => ?_⟩
      · rw [spellingAt?_of_branch? here, ends]
      · rw [utf8ByteSize_ofList_cons, measured]
      · obtain rfl | ⟨rest, rfl, further⟩ := List.prefix_cons_iff.mp inInput
        · simp at longer
        · rw [spellingAt?_of_branch? here]
          exact beyond rest further (by simpa using longer)

/-- The longest of the listed spellings that a text starts with. -/
structure IsLongest (spellings : List String) (text : List Char) (spelling : String) : Prop where
  listed : spelling ∈ spellings
  starts : spelling.toList <+: text
  longest : ∀ other ∈ spellings, other.toList <+: text → other.length ≤ spelling.length

theorem IsLongest.unique {spellings : List String} {text : List Char} {left right : String}
    (first : IsLongest spellings text left) (second : IsLongest spellings text right) :
    left = right := by
  have leftLength := second.longest left first.listed first.starts
  have rightLength := first.longest right second.listed second.starts
  have sameLength : left.toList.length = right.toList.length := by
    rw [String.length_toList, String.length_toList]
    omega
  have samePrefix := List.prefix_of_prefix_length_le first.starts second.starts (by omega)
  exact String.toList_inj.mp (samePrefix.eq_of_length sameLength)

/-- Which spelling is longest depends on which are listed, not on how they are listed. -/
theorem IsLongest.of_same {spellings others : List String} {text : List Char} {spelling : String}
    (same : ∀ spelling, spelling ∈ spellings ↔ spelling ∈ others)
    (longest : IsLongest spellings text spelling) : IsLongest others text spelling where
  listed := (same spelling).mp longest.listed
  starts := longest.starts
  longest other listed := longest.longest other ((same other).mpr listed)

section Spellings

variable {spellings : List String} {text : List Char}

theorem spellingAt?_ofList_of_mem {spelling : String} (listed : spelling ∈ spellings) :
    (ofList spellings).spellingAt? spelling.toList = some spelling := by
  rw [spellingAt?_ofList, String.ofList_toList, if_pos listed]

/-- In a trie of spellings a walk finds nothing exactly if the text starts with none of them. -/
theorem longest?_ofList_eq_none_iff (spelled : "" ∉ spellings) :
    (ofList spellings).longest? text = none ↔
      ∀ spelling ∈ spellings, ¬ spelling.toList <+: text := by
  constructor
  · intro nothing spelling listed starts
    have below : spelling.toList ≠ [] := by
      intro blank
      exact spelled (String.toList_eq_nil_iff.mp blank ▸ listed)
    have absent := spellingAt?_of_longest?_eq_none nothing starts below
    rw [spellingAt?_ofList_of_mem listed] at absent
    contradiction
  · intro none_starts
    cases found : (ofList spellings).longest? text with
    | none => rfl
    | some passed =>
        obtain ⟨path, _, onPath, ends, _⟩ := exists_path_of_longest? found
        rw [spellingAt?_ofList] at ends
        split at ends
        next listed =>
          refine absurd ?_ (none_starts _ listed)
          rwa [String.toList_ofList]
        next => contradiction

theorem isLongest_of_longest? {spelling : String} {size : Nat}
    (found : (ofList spellings).longest? text = some (spelling, size)) :
    IsLongest spellings text spelling ∧ size = spelling.utf8ByteSize := by
  obtain ⟨path, _, onPath, ends, measured, beyond⟩ := exists_path_of_longest? found
  rw [spellingAt?_ofList] at ends
  split at ends
  next listed =>
    cases ends
    refine ⟨⟨listed, by rwa [String.toList_ofList], fun other otherListed otherStarts => ?_⟩,
      measured⟩
    refine Nat.le_of_not_lt fun longer => ?_
    have absent := beyond other.toList otherStarts (by simpa [String.length_toList] using longer)
    rw [spellingAt?_ofList_of_mem otherListed] at absent
    contradiction
  next => contradiction

/-- In a trie of spellings a walk finds exactly the longest one that the text starts with, and
counts its bytes. -/
theorem longest?_ofList_eq_some_iff (spelled : "" ∉ spellings) {spelling : String} {size : Nat} :
    (ofList spellings).longest? text = some (spelling, size) ↔
      IsLongest spellings text spelling ∧ size = spelling.utf8ByteSize := by
  constructor
  · exact isLongest_of_longest?
  · rintro ⟨longest, rfl⟩
    cases found : (ofList spellings).longest? text with
    | none =>
        have none_starts := (longest?_ofList_eq_none_iff spelled).mp found
        exact absurd longest.starts (none_starts spelling longest.listed)
    | some passed =>
        obtain ⟨otherLongest, measured⟩ := isLongest_of_longest? found
        have same := otherLongest.unique longest
        rw [← same, ← measured]

end Spellings

end Tacit.Trie

namespace Tacit.KeywordTable

theorem empty_not_mem_spellings (table : KeywordTable) : "" ∉ table.spellings := by
  intro listed
  obtain ⟨entry, member, blank⟩ := List.mem_map.mp listed
  exact table.spelling_ne entry member blank

/-- In whichever order the spellings of a table are put into a trie, a walk along a text finds the
longest of them that the text starts with, with its length in bytes, and it finds nothing exactly if
the text starts with none of them. -/
theorem trie_finds_longest (table : KeywordTable) (text : String) {order : List String}
    (inserted : ∀ spelling, spelling ∈ order ↔ spelling ∈ table.spellings) :
    (∀ spelling size, (Trie.ofList order).longest? text.toList = some (spelling, size) ↔
      Trie.IsLongest table.spellings text.toList spelling ∧ size = spelling.utf8ByteSize) ∧
    ((Trie.ofList order).longest? text.toList = none ↔
      ∀ spelling ∈ table.spellings, ¬ spelling.toList <+: text.toList) ∧
    (Trie.ofList order).longest? text.toList =
      (Trie.ofList table.spellings).longest? text.toList := by
  have spelled := table.empty_not_mem_spellings
  have spelledInOrder : "" ∉ order := fun listed => spelled ((inserted "").mp listed)
  have finds : ∀ spelling size, (Trie.ofList order).longest? text.toList = some (spelling, size) ↔
      Trie.IsLongest table.spellings text.toList spelling ∧ size = spelling.utf8ByteSize := by
    intro spelling size
    rw [Trie.longest?_ofList_eq_some_iff spelledInOrder]
    refine and_congr_left fun _ => ⟨Trie.IsLongest.of_same inserted, ?_⟩
    exact Trie.IsLongest.of_same fun other => (inserted other).symm
  refine ⟨finds, ?_, ?_⟩
  · rw [Trie.longest?_ofList_eq_none_iff spelledInOrder]
    exact forall_congr' fun spelling => imp_congr_left (inserted spelling)
  · refine Option.ext fun found => ?_
    exact (finds found.1 found.2).trans (Trie.longest?_ofList_eq_some_iff spelled).symm

/-- The walk goes on from `λ` to `λ→` and falls back, as `λ→→` is not reached. -/
theorem trie_falls_back_on_path :
    ∃ table, ofList [("λ", [.declared "near" .monad []]), ("λ→→", [.declared "far" .dyad []])] =
        .ok table ∧
      (∀ spelling, spelling ∈ ["λ→→", "λ"] ↔ spelling ∈ table.spellings) ∧
      (Trie.ofList ["λ→→", "λ"]).longest? "λ→3".toList = some ("λ", 2) := by
  obtain ⟨table, made, listed⟩ : ∃ table, ofList [("λ", [.declared "near" .monad []]),
      ("λ→→", [.declared "far" .dyad []])] = .ok table ∧ table.spellings = ["λ", "λ→→"] :=
    ⟨_, rfl, rfl⟩
  have inserted : ∀ spelling, spelling ∈ ["λ→→", "λ"] ↔ spelling ∈ table.spellings := by
    simp [listed, or_comm]
  refine ⟨table, made, inserted, ?_⟩
  refine ((trie_finds_longest table "λ→3" inserted).1 "λ" 2).mpr ⟨?_, by decide⟩
  rw [listed]
  exact ⟨by decide, by decide, by decide⟩

end Tacit.KeywordTable
