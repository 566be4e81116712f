import Tacit.Catalog

/-!
# Looking entries up

How each operation on catalogs shows in the entries that can be looked up afterwards.  Insertion,
removal and merging change no entry but those they name.
-/

namespace Tacit.Catalog

theorem lookup_place_self {α : Type} (name : String) (value : α) (entries : List (String × α)) :
    (place name value entries).lookup name = some value := by
  induction entries with
  | nil => simp [place]
  | cons entry rest ih =>
      unfold place
      split
      · simp
      next notBefore =>
        split
        · simp
        next different =>
          rw [List.lookup_cons, beq_false_of_ne different]
          exact ih

theorem lookup_place_of_ne {α : Type} {name read : String} (value : α)
    (entries : List (String × α)) (different : read ≠ name) :
    (place name value entries).lookup read = entries.lookup read := by
  have unlike : (read == name) = false := beq_false_of_ne different
  induction entries with
  | nil => simp [place, List.lookup_cons, unlike]
  | cons entry rest ih =>
      unfold place
      split
      · rw [List.lookup_cons, unlike]
      next notBefore =>
        split
        next same =>
          rw [List.lookup_cons, List.lookup_cons, ← same, unlike]
        next other =>
          rw [List.lookup_cons, List.lookup_cons, ih]

@[simp]
theorem get?_empty {α : Type} (name : String) : (∅ : Catalog α).get? name = none := rfl

@[simp]
theorem get?_insert_self {α : Type} (catalog : Catalog α) (name : String) (value : α) :
    (catalog.insert name value).get? name = some value :=
  lookup_place_self name value catalog.entries

theorem get?_insert_of_ne {α : Type} (catalog : Catalog α) {name read : String} (value : α)
    (different : read ≠ name) : (catalog.insert name value).get? read = catalog.get? read :=
  lookup_place_of_ne value catalog.entries different

/-- Insertion changes the entry of one name. -/
theorem get?_insert {α : Type} (catalog : Catalog α) (name read : String) (value : α) :
    (catalog.insert name value).get? read =
      if read = name then some value else catalog.get? read := by
  by_cases same : read = name
  · subst same
    simp
  · simp [same, get?_insert_of_ne catalog value same]

theorem get?_erase_of_ne {α : Type} (catalog : Catalog α) {name read : String}
    (different : read ≠ name) : (catalog.erase name).get? read = catalog.get? read := by
  obtain ⟨entries, ascending⟩ := catalog
  change (entries.filter fun entry => entry.1 ≠ name).lookup read = entries.lookup read
  clear ascending
  induction entries with
  | nil => rfl
  | cons entry rest ih =>
      by_cases removed : entry.1 = name
      · have unlike : (read == entry.1) = false := beq_false_of_ne (removed ▸ different)
        rw [List.filter_cons_of_neg (by simpa using removed), ih, List.lookup_cons, unlike]
      · rw [List.filter_cons_of_pos (by simpa using removed), List.lookup_cons, List.lookup_cons,
          ih]

@[simp]
theorem get?_erase_self {α : Type} (catalog : Catalog α) (name : String) :
    (catalog.erase name).get? name = none := by
  refine List.lookup_eq_none_iff.mpr fun entry member => ?_
  have kept : entry.1 ≠ name := by simpa using (List.mem_filter.mp member).2
  simpa using kept.symm

/-- What is left after a removal was there before. -/
theorem get?_of_get?_erase {α : Type} {catalog : Catalog α} {name read : String} {value : α}
    (found : (catalog.erase name).get? read = some value) : catalog.get? read = some value := by
  by_cases same : read = name
  · rw [same, get?_erase_self] at found
    contradiction
  · rwa [get?_erase_of_ne catalog same] at found

/-- What holds of all entries and of a new one holds of all entries after the insertion. -/
theorem forall_get?_insert {α : Type} {holds : String → α → Prop} {catalog : Catalog α}
    {name : String} {value : α} (before : ∀ read entry, catalog.get? read = some entry →
      holds read entry) (here : holds name value) :
    ∀ read entry, (catalog.insert name value).get? read = some entry → holds read entry := by
  intro read entry found
  rw [get?_insert] at found
  split at found
  next same =>
    cases found
    rw [same]
    exact here
  next different => exact before read entry found

theorem get?_map {α β : Type} (change : α → β) (catalog : Catalog α) (name : String) :
    (catalog.map change).get? name = (catalog.get? name).map change := by
  obtain ⟨entries, ascending⟩ := catalog
  change (entries.map fun entry => (entry.1, change entry.2)).lookup name =
    (entries.lookup name).map change
  clear ascending
  induction entries with
  | nil => rfl
  | cons entry rest ih =>
      rw [List.map_cons, List.lookup_cons, List.lookup_cons, ih]
      cases name == entry.1 <;> rfl

/-- No name is listed twice. -/
theorem names_nodup {α : Type} (catalog : Catalog α) : catalog.names.Nodup := by
  refine List.pairwise_map.mpr (catalog.ascending.imp fun {earlier later} before same => ?_)
  exact String.lt_irrefl _ (same ▸ before)

/-- An entry can be looked up exactly if it is listed. -/
theorem get?_eq_some_iff {α : Type} {catalog : Catalog α} {name : String} {value : α} :
    catalog.get? name = some value ↔ (name, value) ∈ catalog.entries := by
  constructor
  · exact exists_mem_of_get?
  · intro member
    obtain ⟨before, after, split⟩ := List.append_of_mem member
    refine List.lookup_eq_some_iff.mpr ⟨before, after, split, fun entry early => ?_⟩
    have ordered := catalog.ascending
    rw [split] at ordered
    have below : entry.1 < name :=
      (List.pairwise_append.mp ordered).2.2 entry early (name, value) List.mem_cons_self
    simpa using fun same : name = entry.1 => String.lt_irrefl _ (same ▸ below)

/-- Catalogs with the same entry under every name are equal. -/
theorem ext_get? {α : Type} {left right : Catalog α}
    (same : ∀ name, left.get? name = right.get? name) : left = right := by
  have distinct : ∀ catalog : Catalog α, catalog.entries.Nodup := by
    refine fun catalog => catalog.ascending.imp fun {earlier later} before same => ?_
    exact String.lt_irrefl _ (same ▸ before)
  have permuted : left.entries.Perm right.entries := by
    refine (List.perm_ext_iff_of_nodup (distinct left) (distinct right)).mpr fun entry => ?_
    rw [← get?_eq_some_iff, ← get?_eq_some_iff, same]
  refine Catalog.ext (permuted.eq_of_pairwise (fun first second _ _ before after => ?_)
    left.ascending right.ascending)
  exact absurd (String.lt_trans before after) (String.lt_irrefl _)

theorem mem_names_iff {α : Type} {catalog : Catalog α} {name : String} :
    name ∈ catalog.names ↔ ∃ value, catalog.get? name = some value := by
  simp [names, get?_eq_some_iff]

theorem contains_iff {α : Type} {catalog : Catalog α} {name : String} :
    catalog.contains name = true ↔ ∃ value, catalog.get? name = some value :=
  Option.isSome_iff_exists

/-- The listed pairs go over the entries that were there. -/
theorem get?_insertMany {α : Type} {pairs : List (String × α)}
    (distinct : (pairs.map Prod.fst).Nodup) (catalog : Catalog α) (name : String) :
    (catalog.insertMany pairs).get? name = (pairs.lookup name).or (catalog.get? name) := by
  induction pairs generalizing catalog with
  | nil => rfl
  | cons pair rest ih =>
      obtain ⟨fresh, restDistinct⟩ := List.nodup_cons.mp distinct
      have later := ih restDistinct (catalog.insert pair.1 pair.2)
      change ((catalog.insert pair.1 pair.2).insertMany rest).get? name = _
      rw [later, List.lookup_cons, get?_insert]
      by_cases same : name = pair.1
      · have absent : rest.lookup pair.1 = none := by
          refine List.lookup_eq_none_iff.mpr fun entry member => ?_
          simpa using fun equal : pair.1 = entry.1 =>
            fresh (equal ▸ List.mem_map_of_mem member)
        simp [same, absent]
      · simp [same, beq_false_of_ne same]

/-- The entries of the newer catalog go over those of the older. -/
theorem get?_merge {α : Type} (catalog newer : Catalog α) (name : String) :
    (catalog.merge newer).get? name = (newer.get? name).or (catalog.get? name) :=
  get?_insertMany newer.names_nodup catalog name

/-- The listed entries of a catalog make the catalog. -/
theorem ofList_entries {α : Type} (catalog : Catalog α) : ofList catalog.entries = catalog := by
  refine ext_get? fun name => ?_
  rw [ofList, get?_insertMany catalog.names_nodup]
  exact Option.or_none

section Taking

variable {σ γ ν κ : Type} (key : γ → κ) (view : σ → ν) (step : σ → γ → σ) {id : κ}

/-- Taking items one after another keeps the view of a name that none of them has. -/
theorem foldl_view_of_not_mem
    (others : ∀ state item, key item ≠ id → view (step state item) = view state)
    {items : List γ} (outside : ∀ item ∈ items, key item ≠ id) (state : σ) :
    view (items.foldl step state) = view state := by
  induction items generalizing state with
  | nil => rfl
  | cons item rest ih =>
      obtain ⟨different, outsideRest⟩ := List.forall_mem_cons.mp outside
      rw [List.foldl_cons, ih outsideRest, others state item different]

/-- Taking items with distinct names one after another leaves of each name the view after its own
step, from a state that looked as it did at the start. -/
theorem foldl_view_of_mem (good : σ → Prop)
    (others : ∀ state item, key item ≠ id → view (step state item) = view state)
    (kept : ∀ state item, good state → good (step state item))
    {items : List γ} (distinct : (items.map key).Nodup) {item : γ} (member : item ∈ items)
    (named : key item = id) (state : σ) (start : good state) :
    ∃ before, good before ∧ view before = view state ∧
      view (items.foldl step state) = view (step before item) := by
  induction items generalizing state with
  | nil => cases member
  | cons first rest ih =>
      obtain ⟨notAgain, restDistinct⟩ := List.nodup_cons.mp distinct
      obtain rfl | later := List.mem_cons.mp member
      · have outside : ∀ other ∈ rest, key other ≠ id := by
          intro other inRest same
          exact notAgain (List.mem_map.mpr ⟨other, inRest, same.trans named.symm⟩)
        exact ⟨state, start, rfl, foldl_view_of_not_mem key view step others outside _⟩
      · have different : key first ≠ id := by
          intro same
          exact notAgain (List.mem_map.mpr ⟨item, later, named.trans same.symm⟩)
        obtain ⟨before, still, sameView, final⟩ := ih restDistinct later _ (kept state first start)
        exact ⟨before, still, sameView.trans (others state first different), final⟩

end Taking

end Tacit.Catalog
