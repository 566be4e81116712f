import Mathlib.Data.List.Induction
import Tacit.Proofs.Checking
import Tacit.Proofs.Keyword
import Tacit.Settings

/-!
# Tables are built exactly

A vocabulary is checked in two passes: first the builtins that its uses name, then its spellings.
Each pass reports the first fault it meets.  A table that passes has the spellings of its
vocabulary, and the two readings of a spelling, as categories and as a meaning, both follow its uses
one by one.
-/

namespace Tacit

namespace Builtin

variable {text : String} {builtin : Builtin}

theorem ofName?_eq_some_iff : ofName? text = some builtin ↔ builtin.name = text := by
  constructor
  · intro found
    simpa using List.find?_some found
  · rintro rfl
    exact ofName?_name builtin

theorem ofName?_eq_none_iff : ofName? text = none ↔ ∀ builtin : Builtin, builtin.name ≠ text := by
  simp only [Option.eq_none_iff_forall_ne_some, ne_eq, ofName?_eq_some_iff]

theorem eq_of_name_eq {other : Builtin} (same : builtin.name = other.name) : builtin = other :=
  Option.some.inj ((ofName?_eq_some_iff.mpr same).symm.trans (ofName?_name other))

end Builtin

namespace VariantEntry

variable {entry : VariantEntry} {variant : Variant} {error : TableError}

/-- The builtin that a use names, if it names one, exists and has the category of the use. -/
def Sound (entry : VariantEntry) : Prop :=
  ∀ name, entry.builtin = some name →
    ∃ builtin : Builtin, builtin.name = name ∧ builtin.category = entry.category

/-- What is wrong with the builtin that a use names. -/
inductive Fault (entry : VariantEntry) : TableError → Prop
  | unknown {name : String} (named : entry.builtin = some name)
      (absent : ∀ builtin : Builtin, builtin.name ≠ name) : Fault entry (.unknownBuiltin name)
  | mismatch {builtin : Builtin} (named : entry.builtin = some builtin.name)
      (different : builtin.category ≠ entry.category) :
      Fault entry (.builtinCategoryMismatch builtin.name builtin.category entry.category)

theorem sound_iff : entry.Sound ↔ ∀ error, ¬ entry.Fault error := by
  constructor
  · intro sound error fault
    cases fault with
    | unknown named absent =>
        obtain ⟨builtin, isNamed, _⟩ := sound _ named
        exact absent builtin isNamed
    | mismatch named different =>
        obtain ⟨builtin, isNamed, sameCategory⟩ := sound _ named
        exact different (Builtin.eq_of_name_eq isNamed ▸ sameCategory)
  · intro faultless name named
    by_cases known : ∃ builtin : Builtin, builtin.name = name
    · obtain ⟨builtin, rfl⟩ := known
      refine ⟨builtin, rfl, Decidable.byContradiction fun different => ?_⟩
      exact faultless _ (.mismatch named different)
    · exact absurd (.unknown named (not_exists.mp known)) (faultless _)

/-- Building a use reports exactly its fault. -/
theorem build_eq_error_iff : entry.build = .error error ↔ entry.Fault error := by
  constructor
  · intro failed
    rw [build] at failed
    split at failed
    next => contradiction
    next name named =>
      split at failed
      next absent =>
        cases failed
        exact .unknown named (Builtin.ofName?_eq_none_iff.mp absent)
      next builtin found =>
        obtain rfl := Builtin.ofName?_eq_some_iff.mp found
        split at failed
        next => contradiction
        next different =>
          cases failed
          exact .mismatch named different
  · intro fault
    cases fault with
    | unknown named absent =>
        simp only [build, named, Builtin.ofName?_eq_none_iff.mpr absent]
    | mismatch named different =>
        simp only [build, named, Builtin.ofName?_name, if_neg different]

/-- A variant has the name of its use and is bound to the builtin that the use names. -/
theorem build_cases (built : entry.build = .ok variant) :
    variant.name = entry.name ∧
      ((entry.builtin = none ∧ variant.meaning = .declared entry.category) ∨
        ∃ builtin : Builtin, entry.builtin = some builtin.name ∧
          builtin.category = entry.category ∧ variant.meaning = .implemented builtin) := by
  rw [build] at built
  split at built
  next unnamed =>
    cases built
    exact ⟨rfl, .inl ⟨unnamed, rfl⟩⟩
  next name named =>
    split at built
    next => contradiction
    next builtin found =>
      split at built
      next sameCategory =>
        cases built
        rw [← Builtin.ofName?_eq_some_iff.mp found] at named
        exact ⟨rfl, .inr ⟨builtin, named, sameCategory, rfl⟩⟩
      next => contradiction

theorem category_of_build (built : entry.build = .ok variant) :
    variant.category = entry.category := by
  obtain ⟨_, ⟨_, declared⟩ | ⟨builtin, _, sameCategory, implemented⟩⟩ := build_cases built
  · rw [Variant.category, declared]
  · rw [Variant.category, implemented]
    exact sameCategory

end VariantEntry

/-- What is wrong with a spelling whose uses have these categories.  The first category that comes
again is the one reported. -/
inductive SpellingFault (spelling : String) (categories : List Category) : TableError → Prop
  | blank (blank : spelling = "") : SpellingFault spelling categories .emptySpelling
  | unused (spelled : spelling ≠ "") (unused : categories = []) :
      SpellingFault spelling categories (.noVariants spelling)
  | repeated {before after : List Category} {category : Category} (spelled : spelling ≠ "")
      (split : categories = before ++ category :: after) (distinct : before.Nodup)
      (again : category ∈ before) :
      SpellingFault spelling categories (.duplicateCategory spelling category)

namespace SpellingFault

variable {spelling : String} {categories : List Category} {error : TableError}

theorem iff_of_blank (blank : spelling = "") :
    SpellingFault spelling categories error ↔ .emptySpelling = error := by
  constructor
  · intro fault
    cases fault with
    | blank _ => rfl
    | unused spelled _ | repeated spelled _ _ _ => exact absurd blank spelled
  · rintro rfl
    exact .blank blank

theorem iff_of_unused (spelled : spelling ≠ "") :
    SpellingFault spelling [] error ↔ .noVariants spelling = error := by
  constructor
  · intro fault
    cases fault with
    | blank blank => exact absurd blank spelled
    | unused _ _ => rfl
    | repeated _ split _ _ => simp at split
  · rintro rfl
    exact .unused spelled rfl

theorem iff_of_used (spelled : spelling ≠ "") (used : categories ≠ []) :
    SpellingFault spelling categories error ↔
      ∃ category, .duplicateCategory spelling category = error ∧
        ∃ before after, categories = before ++ category :: after ∧ before.Nodup ∧
          category ∈ before := by
  constructor
  · intro fault
    cases fault with
    | blank blank => exact absurd blank spelled
    | unused _ unused => exact absurd unused used
    | repeated _ split distinct again => exact ⟨_, rfl, _, _, split, distinct, again⟩
  · rintro ⟨category, rfl, before, after, split, distinct, again⟩
    exact .repeated spelled split distinct again

end SpellingFault

theorem exists_repeated_of_not_nodup {categories : List Category} (twice : ¬ categories.Nodup) :
    ∃ before category after, categories = before ++ category :: after ∧ before.Nodup ∧
      category ∈ before := by
  induction categories using List.reverseRecOn with
  | nil => exact absurd .nil twice
  | append_singleton categories last ih =>
      by_cases distinct : categories.Nodup
      · have again : last ∈ categories := by simpa [List.nodup_append, distinct] using twice
        exact ⟨categories, last, [], rfl, distinct, again⟩
      · obtain ⟨before, category, after, rfl, beforeDistinct, again⟩ := ih distinct
        exact ⟨before, category, after ++ [last], by simp, beforeDistinct, again⟩

theorem forall_not_spellingFault_iff {spelling : String} {categories : List Category} :
    (∀ error, ¬ SpellingFault spelling categories error) ↔
      spelling ≠ "" ∧ categories ≠ [] ∧ categories.Nodup := by
  constructor
  · intro faultless
    have spelled : spelling ≠ "" := fun blank => faultless _ (.blank blank)
    refine ⟨spelled, fun unused => faultless _ (.unused spelled unused), ?_⟩
    by_contra twice
    obtain ⟨before, category, after, split, distinct, again⟩ := exists_repeated_of_not_nodup twice
    exact faultless _ (.repeated spelled split distinct again)
  · rintro ⟨spelled, used, distinct⟩ error fault
    cases fault with
    | blank blank => exact spelled blank
    | unused _ unused => exact used unused
    | repeated _ split _ again =>
        rw [split] at distinct
        exact (List.nodup_append.mp distinct).2.2 _ again _ List.mem_cons_self rfl

namespace KeywordTable

section Entering

variable {table next : KeywordTable} {spelling : String} {variants : List Variant}
  {category : Category} {error : TableError} {entries : List (String × List Variant)}

/-- The first category that comes again, or was seen before the list. -/
def ComesAgain (seen categories : List Category) (category : Category) : Prop :=
  ∃ before after, categories = before ++ category :: after ∧ before.Nodup ∧
    (∀ earlier ∈ before, earlier ∉ seen) ∧ (category ∈ before ∨ category ∈ seen)

theorem comesAgain_cons_of_mem {seen rest : List Category} {first : Category}
    (known : first ∈ seen) : ComesAgain seen (first :: rest) category ↔ first = category := by
  constructor
  · rintro ⟨_ | ⟨earlier, before⟩, after, split, distinct, unseen, _⟩
    · exact (List.cons.inj split).1
    · obtain ⟨rfl, _⟩ := List.cons.inj split
      exact absurd known (unseen _ List.mem_cons_self)
  · rintro rfl
    exact ⟨[], rest, rfl, .nil, by simp, .inr known⟩

theorem comesAgain_cons_of_not_mem {seen rest : List Category} {first : Category}
    (unknown : first ∉ seen) :
    ComesAgain seen (first :: rest) category ↔ ComesAgain (first :: seen) rest category := by
  constructor
  · rintro ⟨_ | ⟨earlier, before⟩, after, split, distinct, unseen, again⟩
    · obtain ⟨rfl, _⟩ := List.cons.inj split
      exact absurd (again.resolve_left List.not_mem_nil) unknown
    · obtain ⟨rfl, restSplit⟩ := List.cons.inj split
      obtain ⟨fresh, restDistinct⟩ := List.nodup_cons.mp distinct
      refine ⟨before, after, restSplit, restDistinct, fun other member => ?_, by grind⟩
      rw [List.mem_cons, not_or]
      exact ⟨fun same => fresh (same ▸ member), unseen other (List.mem_cons_of_mem _ member)⟩
  · rintro ⟨before, after, split, distinct, unseen, again⟩
    have fresh : first ∉ before := fun member => unseen _ member List.mem_cons_self
    refine ⟨first :: before, after, by rw [split]; rfl, List.nodup_cons.mpr ⟨fresh, distinct⟩,
      List.forall_mem_cons.mpr ⟨unknown, fun earlier member inSeen => ?_⟩, by grind⟩
    exact unseen earlier member (List.mem_cons_of_mem _ inSeen)

theorem go_eq_some_iff {seen : List Category} :
    firstRepeated?.go seen variants = some category ↔
      ComesAgain seen (variants.map Variant.category) category := by
  induction variants generalizing seen with
  | nil => simp [firstRepeated?.go, ComesAgain]
  | cons variant rest ih =>
      rw [firstRepeated?.go, List.map_cons]
      split
      next known => rw [comesAgain_cons_of_mem known, Option.some_inj]
      next unknown => rw [comesAgain_cons_of_not_mem unknown, ih]

theorem firstRepeated?_eq_some_iff :
    firstRepeated? variants = some category ↔
      ∃ before after, variants.map Variant.category = before ++ category :: after ∧
        before.Nodup ∧ category ∈ before := by
  simp [firstRepeated?, go_eq_some_iff, ComesAgain]

/-- Entering a spelling reports exactly what is wrong with it. -/
theorem insert?_eq_error_iff :
    table.insert? spelling variants = .error error ↔
      SpellingFault spelling (variants.map Variant.category) error := by
  rw [insert?]
  split
  next blank => rw [SpellingFault.iff_of_blank blank, Except.error.injEq]
  next spelled =>
    split
    next unused =>
      rw [unused, List.map_nil, SpellingFault.iff_of_unused spelled, Except.error.injEq]
    next used =>
      rw [SpellingFault.iff_of_used spelled fun unused => used (List.map_eq_nil_iff.mp unused)]
      simp only [← firstRepeated?_eq_some_iff]
      split
      next category repeated => simp [repeated]
      next distinct => simp [distinct]

theorem entries_of_insert? (entered : table.insert? spelling variants = .ok next) :
    next.entries = table.entries.insert spelling variants := by
  rw [insert?] at entered
  split at entered
  next => contradiction
  next =>
    split at entered
    next => contradiction
    next =>
      split at entered
      next => contradiction
      next =>
        cases entered
        rfl

/-- A table refuses the first spelling that has a fault. -/
theorem ofList_eq_error_iff :
    ofList entries = .error error ↔
      FirstFault (fun entry => SpellingFault entry.1 (entry.2.map Variant.category)) entries
        error := by
  rw [ofList]
  generalize empty = table
  induction entries generalizing table with
  | nil => exact iff_of_false nofun not_firstFault_nil
  | cons entry rest ih =>
      have tells : ∀ reported, SpellingFault entry.1 (entry.2.map Variant.category) reported ↔
          table.insert? entry.1 entry.2 = .error reported := fun _ => insert?_eq_error_iff.symm
      rw [List.foldlM_cons, bind_eq_error_iff, firstFault_cons_iff]
      simp only [ih, tells, ← ne_eq, ← exists_eq_ok_iff, exists_and_right]

theorem entries_of_ofList (built : ofList entries = .ok table) :
    table.entries = .ofList entries := by
  suffices general : ∀ start : KeywordTable,
      entries.foldlM (fun table entry => table.insert? entry.1 entry.2) start = .ok table →
        table.entries = start.entries.insertMany entries from general empty built
  clear built
  induction entries with
  | nil =>
      intro start same
      cases same
      rfl
  | cons entry rest ih =>
      intro start entered
      rw [List.foldlM_cons] at entered
      obtain ⟨next, here, later⟩ := bind_eq_ok_iff.mp entered
      rw [ih next later, entries_of_insert? here]
      rfl

end Entering

end KeywordTable

section Meanings

variable {variant : Variant} {category : Category}

/-- The symbol of a category, and the name under which it is declared. -/
def SymbolSet.standing (set : SymbolSet) (category : Category) : Option Symbol × Option String :=
  (set.get? category, set.declared.get category)

/-- What a variant by itself makes of its category: a symbol or a name. -/
def Variant.standing (variant : Variant) : Option Symbol × Option String :=
  match variant.meaning with
  | .implemented builtin => (some builtin.symbol, none)
  | .declared _ => (none, some variant.name)

theorem Variant.standing_contribute_of_ne (set : SymbolSet)
    (different : variant.category ≠ category) :
    (variant.contribute set).standing category = set.standing category := by
  refine Prod.ext (variant.get?_contribute_of_ne set different) ?_
  change (variant.contribute set).declared.get category = set.declared.get category
  rw [contribute]
  rw [Variant.category] at different
  split
  next builtin implemented => cases builtin <;> rfl
  next declared meaning =>
    rw [meaning] at different
    exact ByCategory.get_set_of_ne _ _ different.symm

theorem Variant.standing_contribute {set : SymbolSet}
    (nothing : set.standing variant.category = (none, none)) :
    (variant.contribute set).standing variant.category = variant.standing := by
  obtain ⟨noSymbol, noName⟩ := Prod.ext_iff.mp nothing
  cases meaning : variant.meaning with
  | implemented builtin =>
      have sameCategory : variant.category = builtin.category := by
        rw [Variant.category, meaning]
      have sameNames : (variant.contribute set).declared = set.declared := by
        rw [contribute, meaning]
        cases builtin <;> rfl
      rw [Variant.standing, meaning, SymbolSet.standing, sameNames]
      exact Prod.ext (sameCategory ▸ variant.get?_contribute meaning set) noName
  | declared category =>
      have sameCategory : variant.category = category := by rw [Variant.category, meaning]
      rw [sameCategory] at noSymbol ⊢
      rw [Variant.standing, meaning, contribute, meaning]
      refine Prod.ext (Eq.trans ?_ noSymbol) (ByCategory.get_set_self _ _ _)
      cases category <;> rfl

/-- In the category of a variant, a spelling means what the variant by itself makes of it. -/
theorem KeywordTable.standing_symbols {table : KeywordTable} {spelling : String}
    (member : variant ∈ table.variants spelling) :
    (table.symbols spelling).standing variant.category = variant.standing := by
  -- Variants of other categories leave this one alone, so it is empty when its own comes.
  have nothing : (∅ : SymbolSet).standing variant.category = (none, none) := by
    cases variant.category <;> rfl
  obtain ⟨before, _, untouched, final⟩ := Catalog.foldl_view_of_mem Variant.category
    (fun set : SymbolSet => set.standing variant.category)
    (fun set variant => Variant.contribute variant set) (fun _ => True)
    (fun set (other : Variant) different => Variant.standing_contribute_of_ne set different)
    (fun _ _ _ => trivial) (table.nodup_variants spelling) member rfl ∅ trivial
  exact final.trans (Variant.standing_contribute (untouched.trans nothing))

end Meanings

namespace Vocabulary

variable {vocabulary : Vocabulary} {table : KeywordTable} {entry : String × List VariantEntry}
  {made : String × List Variant} {error : TableError}

/-- The variants of a spelling, or the first fault in its uses. -/
def variantsOf (entry : String × List VariantEntry) :
    Except TableError (String × List Variant) := do
  let variants ← entry.2.mapM VariantEntry.build
  return (entry.1, variants)

theorem build_eq (vocabulary : Vocabulary) :
    vocabulary.build = vocabulary.entries.mapM variantsOf >>= KeywordTable.ofList := rfl

theorem variantsOf_eq_error_iff :
    variantsOf entry = .error error ↔ FirstFault VariantEntry.Fault entry.2 error := by
  rw [variantsOf, bind_eq_error_iff,
    mapM_eq_error_iff fun _ _ => VariantEntry.build_eq_error_iff]
  refine or_iff_left ?_
  rintro ⟨_, _, impossible⟩
  cases impossible

theorem variantsOf_eq_ok_iff :
    variantsOf entry = .ok made ↔ made.1 = entry.1 ∧
      List.Forall₂ (fun use variant => use.build = .ok variant) entry.2 made.2 := by
  rw [variantsOf, bind_eq_ok_iff]
  simp only [mapM_eq_ok_iff]
  constructor
  · rintro ⟨variants, each, same⟩
    cases same
    exact ⟨rfl, each⟩
  · rintro ⟨sameSpelling, each⟩
    exact ⟨made.2, each, by rw [← sameSpelling]; rfl⟩

/-- The variants of a spelling have its name and the categories of its uses. -/
theorem outline_of_variantsOf (built : variantsOf entry = .ok made) :
    (entry.1, entry.2.map VariantEntry.category) = (made.1, made.2.map Variant.category) := by
  obtain ⟨sameSpelling, each⟩ := variantsOf_eq_ok_iff.mp built
  rw [sameSpelling, map_eq_map_of_forall₂ each fun use variant usable =>
    (VariantEntry.category_of_build usable).symm]

/-- The first pass is passed exactly if every use is sound. -/
theorem exists_mapM_variantsOf_iff :
    (∃ entered, vocabulary.entries.mapM variantsOf = .ok entered) ↔
      ∀ entry ∈ vocabulary.entries, ∀ use ∈ entry.2, use.Sound := by
  rw [exists_eq_ok_iff]
  simp only [ne_eq, mapM_eq_error_iff fun _ _ => variantsOf_eq_error_iff,
    forall_not_firstFault_iff, VariantEntry.sound_iff]

/-- A vocabulary is refused for the first fault in its uses or, if all are sound, for the first in
its spellings. -/
theorem build_eq_error_iff :
    vocabulary.build = .error error ↔
      FirstFault (fun entry => FirstFault VariantEntry.Fault entry.2) vocabulary.entries error ∨
        (∀ entry ∈ vocabulary.entries, ∀ use ∈ entry.2, use.Sound) ∧
          FirstFault (fun entry => SpellingFault entry.1 (entry.2.map VariantEntry.category))
            vocabulary.entries error := by
  -- The second pass sees only spellings with their categories, which the first pass keeps.
  have second : ∀ entered, vocabulary.entries.mapM variantsOf = .ok entered →
      (KeywordTable.ofList entered = .error error ↔
        FirstFault (fun entry => SpellingFault entry.1 (entry.2.map VariantEntry.category))
          vocabulary.entries error) := by
    intro entered passed
    have sameOutlines := map_eq_map_of_forall₂ (mapM_eq_ok_iff.mp passed)
      fun _ _ => outline_of_variantsOf
    exact KeywordTable.ofList_eq_error_iff.trans
      (firstFault_of_map_eq (fun outline => SpellingFault outline.1 outline.2) sameOutlines).symm
  rw [build_eq, bind_eq_error_iff, mapM_eq_error_iff fun _ _ => variantsOf_eq_error_iff,
    ← exists_mapM_variantsOf_iff]
  refine or_congr_right ⟨?_, ?_⟩
  · rintro ⟨entered, passed, refused⟩
    exact ⟨⟨entered, passed⟩, (second entered passed).mp refused⟩
  · rintro ⟨⟨entered, passed⟩, first⟩
    exact ⟨entered, passed, (second entered passed).mpr first⟩

section Built

variable {spelling : String} {uses : List VariantEntry} {use : VariantEntry} {category : Category}

/-- A table has the spellings of its vocabulary, each with the variants of its uses. -/
theorem entries_of_build (built : vocabulary.build = .ok table) :
    List.Forall₂ (fun entry made => variantsOf entry = .ok made) vocabulary.entries
      table.entries.entries := by
  rw [build_eq] at built
  obtain ⟨entered, passed, tabled⟩ := bind_eq_ok_iff.mp built
  have each := mapM_eq_ok_iff.mp passed
  have sameNames : vocabulary.names = entered.map Prod.fst := map_eq_map_of_forall₂ each
    fun _ _ made => (variantsOf_eq_ok_iff.mp made).1.symm
  have ascending : entered.Pairwise fun earlier later => earlier.1 < later.1 := by
    have namesAscend : vocabulary.names.Pairwise (· < ·) :=
      List.pairwise_map.mpr vocabulary.ascending
    rw [sameNames] at namesAscend
    exact List.pairwise_map.mp namesAscend
  have same : table.entries = ⟨entered, ascending⟩ := (KeywordTable.entries_of_ofList tabled).trans
    (Catalog.ofList_entries ⟨entered, ascending⟩)
  rw [same]
  exact each

theorem spellings_of_build (built : vocabulary.build = .ok table) :
    table.spellings = vocabulary.names :=
  (map_eq_map_of_forall₂ (entries_of_build built)
    fun _ _ made => (variantsOf_eq_ok_iff.mp made).1.symm).symm

theorem variants_of_build (built : vocabulary.build = .ok table)
    (found : vocabulary.get? spelling = some uses) :
    List.Forall₂ (fun use variant => use.build = .ok variant) uses (table.variants spelling) := by
  obtain ⟨made, member, variants⟩ := exists_mem_of_forall₂ (entries_of_build built)
    (Catalog.get?_eq_some_iff.mp found)
  obtain ⟨rfl, each⟩ := variantsOf_eq_ok_iff.mp variants
  rw [KeywordTable.variants, Catalog.get?_eq_some_iff.mpr member]
  exact each

theorem mem_categories_of_build (built : vocabulary.build = .ok table) :
    category ∈ table.categories spelling ↔
      ∃ uses use, vocabulary.get? spelling = some uses ∧ use ∈ uses ∧ use.category = category := by
  have sameCategories : ∀ uses, vocabulary.get? spelling = some uses →
      uses.map VariantEntry.category = (table.variants spelling).map Variant.category :=
    fun uses found => map_eq_map_of_forall₂ (variants_of_build built found)
      fun _ _ usable => (VariantEntry.category_of_build usable).symm
  rw [KeywordTable.categories, CategorySet.mem_ofList]
  constructor
  · intro member
    have listed : spelling ∈ table.spellings := by
      refine Catalog.mem_names_iff.mpr ?_
      cases entered : table.entries.get? spelling with
      | some variants => exact ⟨variants, rfl⟩
      | none =>
          rw [KeywordTable.variants, entered] at member
          cases member
    rw [spellings_of_build built] at listed
    obtain ⟨uses, found⟩ := Catalog.mem_names_iff.mp listed
    rw [← sameCategories uses found] at member
    obtain ⟨use, inUses, sameCategory⟩ := List.mem_map.mp member
    exact ⟨uses, use, found, inUses, sameCategory⟩
  · rintro ⟨uses, use, found, inUses, sameCategory⟩
    rw [← sameCategories uses found]
    exact List.mem_map.mpr ⟨use, inUses, sameCategory⟩

/-- In the category of a use, a spelling means the builtin that the use names, or the use is
declared under its own name; never both. -/
theorem standing_of_build (built : vocabulary.build = .ok table)
    (found : vocabulary.get? spelling = some uses) (inUses : use ∈ uses) :
    (∃ builtin : Builtin, use.builtin = some builtin.name ∧
        (table.symbols spelling).standing use.category = (some builtin.symbol, none)) ∨
      (use.builtin = none ∧
        (table.symbols spelling).standing use.category = (none, some use.name)) := by
  obtain ⟨variant, member, usable⟩ := exists_mem_of_forall₂ (variants_of_build built found) inUses
  have standing := KeywordTable.standing_symbols member
  rw [VariantEntry.category_of_build usable, Variant.standing] at standing
  obtain ⟨sameName, ⟨unnamed, declared⟩ | ⟨builtin, named, _, implemented⟩⟩ :=
    VariantEntry.build_cases usable
  · rw [declared, sameName] at standing
    exact .inr ⟨unnamed, standing⟩
  · rw [implemented] at standing
    exact .inl ⟨builtin, named, standing⟩

end Built

/-- A table is made exactly if every use is sound and every spelling faultless. -/
theorem exists_build_eq_ok_iff :
    (∃ table, vocabulary.build = .ok table) ↔
      (∀ entry ∈ vocabulary.entries, ∀ use ∈ entry.2, use.Sound) ∧
        ∀ entry ∈ vocabulary.entries,
          entry.1 ≠ "" ∧ entry.2 ≠ [] ∧ (entry.2.map VariantEntry.category).Nodup := by
  have uses : (∀ error, ¬ FirstFault (fun entry => FirstFault VariantEntry.Fault entry.2)
      vocabulary.entries error) ↔ ∀ entry ∈ vocabulary.entries, ∀ use ∈ entry.2, use.Sound := by
    simp only [forall_not_firstFault_iff, VariantEntry.sound_iff]
  have spellings : (∀ error, ¬ FirstFault
      (fun entry => SpellingFault entry.1 (entry.2.map VariantEntry.category))
      vocabulary.entries error) ↔ ∀ entry ∈ vocabulary.entries,
        entry.1 ≠ "" ∧ entry.2 ≠ [] ∧ (entry.2.map VariantEntry.category).Nodup := by
    simp only [forall_not_firstFault_iff, forall_not_spellingFault_iff, ne_eq, List.map_eq_nil_iff]
  rw [exists_eq_ok_iff, ← uses, ← spellings]
  simp only [ne_eq, build_eq_error_iff, not_or, not_and, forall_and, ← uses]
  exact and_congr_right fun noneFirst => ⟨fun second error => second error noneFirst,
    fun second error _ => second error⟩

/-- A vocabulary makes a table exactly if each spelling has a character, has a use, has no two uses
of one category and names only builtins that exist with the category of their use.  What is reported
otherwise is the first fault in the uses, by spelling and then in order, and only if there is none
the first fault in the spellings.  A table has exactly the spellings of its vocabulary.  A spelling
can be used in exactly the categories in which it means something, which are those of its uses; and
each use is there as the builtin that it names or declared under its name, never both. -/
theorem build_exact (vocabulary : Vocabulary) :
    ((∃ table, vocabulary.build = .ok table) ↔
      ∀ spelling uses, vocabulary.get? spelling = some uses →
        spelling ≠ "" ∧ uses ≠ [] ∧ (uses.map VariantEntry.category).Nodup ∧
          ∀ use ∈ uses, use.Sound) ∧
    (∀ error, vocabulary.build = .error error ↔
      FirstFault (fun entry => FirstFault VariantEntry.Fault entry.2) vocabulary.entries error ∨
        (∀ entry ∈ vocabulary.entries, ∀ use ∈ entry.2, use.Sound) ∧
          FirstFault (fun entry => SpellingFault entry.1 (entry.2.map VariantEntry.category))
            vocabulary.entries error) ∧
    ∀ table, vocabulary.build = .ok table →
      table.spellings = vocabulary.names ∧
      ∀ spelling category,
        (category ∈ table.categories spelling ↔
          (table.symbols spelling).offers category = true) ∧
        (category ∈ table.categories spelling ↔
          ∃ uses use, vocabulary.get? spelling = some uses ∧ use ∈ uses ∧
            use.category = category) ∧
        ∀ uses use, vocabulary.get? spelling = some uses → use ∈ uses → use.category = category →
          (∃ builtin : Builtin, use.builtin = some builtin.name ∧
            (table.symbols spelling).get? category = some builtin.symbol ∧
            (table.symbols spelling).declared.get category = none) ∨
          (use.builtin = none ∧ (table.symbols spelling).get? category = none ∧
            (table.symbols spelling).declared.get category = some use.name) := by
  refine ⟨?_, fun error => build_eq_error_iff, fun table built =>
    ⟨spellings_of_build built, fun spelling category =>
      ⟨(table.offers_symbols_iff spelling category).symm, mem_categories_of_build built, ?_⟩⟩⟩
  · simp only [Catalog.get?_eq_some_iff]
    rw [exists_build_eq_ok_iff]
    constructor
    · rintro ⟨sound, faultless⟩ spelling uses member
      obtain ⟨spelled, used, distinct⟩ := faultless _ member
      exact ⟨spelled, used, distinct, sound _ member⟩
    · intro each
      refine ⟨fun entry member => (each entry.1 entry.2 member).2.2.2, fun entry member => ?_⟩
      obtain ⟨spelled, used, distinct, _⟩ := each entry.1 entry.2 member
      exact ⟨spelled, used, distinct⟩
  · rintro uses use found inUses rfl
    simpa only [SymbolSet.standing, Prod.mk.injEq] using standing_of_build built found inUses

/-- Two uses of `-` that name builtins, and one of `@` that is only declared. -/
def minusAndInsert : Vocabulary where
  entries := [("-", [{ name := "negate", category := .monad, builtin := some "negate" },
      { name := "difference", aliases := ["minus"], category := .dyad,
        builtin := some "difference" }]),
    ("@", [{ name := "insert", category := .adverb }])]
  ascending := by decide

/-- A spelling without characters and uses, before one that has two uses of one category, the
second with a builtin that does not exist. -/
def faultyThroughout : Vocabulary where
  entries := [("", []), ("?", [{ name := "first", category := .monad },
    { name := "mystery", category := .monad, builtin := some "mystery" }])]
  ascending := by decide

/-- The table of `-` and `@` is made, with each use as its builtin or its declared name; of the
other vocabulary the builtin is reported, although both spellings have faults as well. -/
theorem minusAndInsert_built :
    (∃ table, minusAndInsert.build = .ok table ∧ table.spellings = ["-", "@"] ∧
      (table.symbols "-").get? .dyad = some (.dyad .subtract) ∧
      (table.symbols "@").get? .adverb = none ∧
      (table.symbols "@").declared.get .adverb = some "insert") ∧
    faultyThroughout.build = .error (.unknownBuiltin "mystery") := by
  constructor
  · obtain ⟨makes, _, follows⟩ := build_exact minusAndInsert
    have faultless : ∀ entry ∈ minusAndInsert.entries, entry.1 ≠ "" ∧ entry.2 ≠ [] ∧
        (entry.2.map VariantEntry.category).Nodup ∧ ∀ use ∈ entry.2, use.Sound := by
      refine List.forall_mem_cons.mpr ⟨⟨by decide, by decide, by decide, ?_⟩,
        List.forall_mem_singleton.mpr ⟨by decide, by decide, by decide, ?_⟩⟩
      · refine List.forall_mem_cons.mpr ⟨fun name named => ?_,
          List.forall_mem_singleton.mpr fun name named => ?_⟩
        · exact ⟨.unary .negate, Option.some.inj named, rfl⟩
        · exact ⟨.binary .subtract, Option.some.inj named, rfl⟩
      · exact List.forall_mem_singleton.mpr fun name named => nomatch named
    obtain ⟨table, built⟩ := makes.mpr fun spelling uses found =>
      faultless (spelling, uses) (Catalog.get?_eq_some_iff.mp found)
    obtain ⟨spellings, readings⟩ := follows table built
    refine ⟨table, built, spellings, ?_⟩
    obtain ⟨builtin, named, implemented, _⟩ | ⟨unnamed, _⟩ :=
      (readings "-" .dyad).2.2 _ _ rfl (.tail _ (.head _)) rfl
    · obtain ⟨_, named, _⟩ | ⟨_, declared⟩ := (readings "@" .adverb).2.2 _ _ rfl (.head _) rfl
      · cases named
      · obtain rfl : .binary .subtract = builtin := Builtin.eq_of_name_eq (Option.some.inj named)
        exact ⟨implemented, declared⟩
    · cases unnamed
  · refine ((build_exact faultyThroughout).2.1 _).mpr (.inl ?_)
    have noBuiltin : ∀ builtin : Builtin, builtin.name ≠ "mystery" :=
      Builtin.ofName?_eq_none_iff.mp (by decide)
    refine .later (fun _ => not_firstFault_nil) (.here (.later ?_ (.here (.unknown rfl noBuiltin))))
    exact VariantEntry.sound_iff.mp fun _ named => nomatch named

end Vocabulary

end Tacit
