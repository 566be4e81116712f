/-!
# Catalogs

A catalog keeps entries under names, each name once, in the order of the names' characters.  That
order is the order in which every listing of sources, expressions, keywords and results appears.
Two catalogs with the same entries are equal.
-/

namespace Tacit

/-- Entries under distinct names, listed in ascending order of name. -/
@[ext]
structure Catalog (α : Type) where
  /-- Names with their entries. -/
  entries : List (String × α)
  /-- Names ascend strictly. -/
  ascending : entries.Pairwise fun earlier later => earlier.1 < later.1

namespace Catalog

variable {α β : Type}

/-- The catalog without entries. -/
def empty : Catalog α := ⟨[], .nil⟩

instance : EmptyCollection (Catalog α) := ⟨empty⟩

instance : Inhabited (Catalog α) := ⟨empty⟩

/-- The names in order. -/
def names (catalog : Catalog α) : List String := catalog.entries.map Prod.fst

/-- The entries in the order of their names. -/
def values (catalog : Catalog α) : List α := catalog.entries.map Prod.snd

/-- The number of entries. -/
def size (catalog : Catalog α) : Nat := catalog.entries.length

/-- The entry under a name. -/
def get? (catalog : Catalog α) (name : String) : Option α := catalog.entries.lookup name

/-- Whether a name has an entry. -/
def contains (catalog : Catalog α) (name : String) : Bool := (catalog.get? name).isSome

/-- Put an entry at its place in an ordered list, in the stead of one with the same name. -/
def place (name : String) (value : α) : List (String × α) → List (String × α)
  | [] => [(name, value)]
  | entry :: rest =>
      if name < entry.1 then (name, value) :: entry :: rest
      else if name = entry.1 then (name, value) :: rest
      else entry :: place name value rest

theorem mem_place {name : String} {value : α} {entries : List (String × α)}
    {entry : String × α} (member : entry ∈ place name value entries) :
    entry = (name, value) ∨ entry ∈ entries := by
  induction entries with
  | nil => exact Or.inl (List.mem_singleton.mp member)
  | cons head rest ih =>
      unfold place at member
      split at member
      · exact List.mem_cons.mp member
      · split at member
        · rcases List.mem_cons.mp member with rfl | inRest
          · exact Or.inl rfl
          · exact Or.inr (List.mem_cons_of_mem _ inRest)
        · rcases List.mem_cons.mp member with rfl | inRest
          · exact Or.inr List.mem_cons_self
          · exact (ih inRest).imp_right (List.mem_cons_of_mem _)

theorem pairwise_place (name : String) (value : α) {entries : List (String × α)}
    (ascending : entries.Pairwise fun earlier later => earlier.1 < later.1) :
    (place name value entries).Pairwise fun earlier later => earlier.1 < later.1 := by
  induction entries with
  | nil => exact List.pairwise_singleton _ _
  | cons head rest ih =>
      obtain ⟨above, restAscending⟩ := List.pairwise_cons.mp ascending
      unfold place
      split
      next before =>
        refine List.pairwise_cons.mpr ⟨fun entry member => ?_, ascending⟩
        rcases List.mem_cons.mp member with rfl | inRest
        · exact before
        · exact String.lt_trans before (above entry inRest)
      next notBefore =>
        split
        next same =>
          exact List.pairwise_cons.mpr ⟨fun entry member => same ▸ above entry member,
            restAscending⟩
        next different =>
          refine List.pairwise_cons.mpr ⟨fun entry member => ?_, ih restAscending⟩
          rcases mem_place member with rfl | inRest
          · exact Decidable.byContradiction fun notAfter => different
              (String.le_antisymm (String.not_lt.mp notAfter) (String.not_lt.mp notBefore))
          · exact above entry inRest

/-- Enter a value under a name, in the stead of the entry it had. -/
def insert (catalog : Catalog α) (name : String) (value : α) : Catalog α :=
  ⟨place name value catalog.entries, pairwise_place name value catalog.ascending⟩

/-- Take the entry of a name out. -/
def erase (catalog : Catalog α) (name : String) : Catalog α :=
  ⟨catalog.entries.filter fun entry => entry.1 ≠ name, catalog.ascending.filter _⟩

/-- Enter the listed pairs one after another, so the last of several with one name stays. -/
def insertMany (catalog : Catalog α) (pairs : List (String × α)) : Catalog α :=
  pairs.foldl (fun result pair => result.insert pair.1 pair.2) catalog

/-- Every entry after a list of insertions was there before or comes from the list. -/
theorem mem_of_mem_insertMany {pairs : List (String × α)} {catalog : Catalog α}
    {entry : String × α} (member : entry ∈ (catalog.insertMany pairs).entries) :
    entry ∈ catalog.entries ∨ entry ∈ pairs := by
  induction pairs generalizing catalog with
  | nil => exact Or.inl member
  | cons pair rest ih =>
      rcases ih member with early | late
      · rcases mem_place early with rfl | old
        · exact Or.inr List.mem_cons_self
        · exact Or.inl old
      · exact Or.inr (List.mem_cons_of_mem _ late)

/-- The catalog of the listed pairs; the last of several with one name stays. -/
def ofList (pairs : List (String × α)) : Catalog α := empty.insertMany pairs

/-- The catalog of names alone, each once. -/
def ofNames (names : List String) : Catalog Unit := ofList (names.map fun name => (name, ()))

/-- Enter all entries of another catalog. -/
def merge (catalog newer : Catalog α) : Catalog α := catalog.insertMany newer.entries

/-- Change every entry and keep its name. -/
def map (change : α → β) (catalog : Catalog α) : Catalog β :=
  ⟨catalog.entries.map fun entry => (entry.1, change entry.2),
    List.pairwise_map.mpr catalog.ascending⟩

theorem exists_mem_of_get? {catalog : Catalog α} {name : String} {value : α}
    (found : catalog.get? name = some value) : (name, value) ∈ catalog.entries := by
  obtain ⟨before, key, found, after⟩ := List.lookup_eq_some_iff.mp found
  simp_all

/-- Taking an entry out makes a catalog smaller. -/
theorem size_erase_lt {catalog : Catalog α} {name : String} {value : α}
    (found : catalog.get? name = some value) : (catalog.erase name).size < catalog.size := by
  refine List.length_filter_lt_length_iff_exists.mpr ⟨(name, value), exists_mem_of_get? found, ?_⟩
  simp

end Catalog

end Tacit
