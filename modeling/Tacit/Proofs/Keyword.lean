import Tacit.Keyword
import Tacit.Proofs.Catalog
import Tacit.Proofs.Symbol

/-!
# What spellings can be and what they mean

The categories of a spelling and its meaning are two readings of its variants.  They agree: a
category is offered by the meaning, with a symbol or only by name, exactly if it is a category of
the spelling.
-/

namespace Tacit

theorem CategorySet.mem_ofList {category : Category} {categories : List Category} :
    category ∈ CategorySet.ofList categories ↔ category ∈ categories := by
  suffices general : ∀ set : CategorySet,
      category ∈ categories.foldl (fun set added => insert added set) set ↔
        category ∈ categories ∨ category ∈ set by
    have nothing : category ∉ (∅ : CategorySet) := by cases category <;> decide
    rw [CategorySet.ofList, general ∅]
    simp [nothing]
  induction categories with
  | nil => simp
  | cons added rest ih =>
      intro set
      rw [List.foldl_cons, ih, CategorySet.mem_insert, List.mem_cons, or_left_comm, or_assoc]

@[simp]
theorem CategorySet.mem_singleton {category only : Category} :
    category ∈ ({only} : CategorySet) ↔ category = only := by
  cases category <;> cases only <;> decide

namespace SymbolSet

theorem offers_insert (set : SymbolSet) (symbol : Symbol) (category : Category) :
    (set.insert symbol).offers category =
      (decide (category = symbol.category) || set.offers category) := by
  cases symbol <;> cases category <;>
    simp [insert, offers, categories, ByCategory.get, Symbol.category]

theorem offers_declare (set : SymbolSet) (declared category : Category) (name : String) :
    (set.declare declared name).offers category =
      (decide (category = declared) || set.offers category) := by
  by_cases same : category = declared
  · subst same
    simp [declare, offers]
  · simp [declare, offers, categories, ByCategory.get_set_of_ne _ _ same, same]

/-- Nothing that is implemented. -/
def IsBlank (set : SymbolSet) : Prop :=
  set.noun = none ∧ set.monad = none ∧ set.dyad = none ∧ set.conjunction = none ∧
    set.adverb = none

end SymbolSet

theorem Variant.offers_contribute (variant : Variant) (set : SymbolSet) (category : Category) :
    (variant.contribute set).offers category =
      (decide (category = variant.category) || set.offers category) := by
  rw [contribute, Variant.category]
  split
  next builtin _ => exact SymbolSet.offers_insert set builtin.symbol category
  next declared _ => exact SymbolSet.offers_declare set declared category variant.name

/-- The symbol of a category. -/
def SymbolSet.get? (set : SymbolSet) : Category → Option Symbol
  | .noun => set.noun.map .noun
  | .monad => set.monad.map .monad
  | .dyad => set.dyad.map .dyad
  | .conjunction => set.conjunction.map .conjunction
  | .adverb => set.adverb.map .adverb

theorem Variant.get?_contribute_of_ne (variant : Variant) (set : SymbolSet) {category : Category}
    (different : variant.category ≠ category) :
    (variant.contribute set).get? category = set.get? category := by
  rw [contribute]
  rw [Variant.category] at different
  split
  next builtin implemented =>
    rw [implemented] at different
    cases builtin <;> cases category <;> first | rfl | exact absurd rfl different
  next => cases category <;> rfl

theorem Variant.get?_contribute {variant : Variant} {builtin : Builtin}
    (implemented : variant.meaning = .implemented builtin) (set : SymbolSet) :
    (variant.contribute set).get? builtin.category = some builtin.symbol := by
  rw [contribute, implemented]
  cases builtin <;> rfl

namespace KeywordTable

/-- A spelling means something in exactly the categories it can be used in. -/
theorem offers_symbols_iff (table : KeywordTable) (spelling : String) (category : Category) :
    (table.symbols spelling).offers category = true ↔ category ∈ table.categories spelling := by
  rw [symbols, categories, CategorySet.mem_ofList]
  suffices general : ∀ (variants : List Variant) (set : SymbolSet),
      (variants.foldl (fun set variant => variant.contribute set) set).offers category = true ↔
        category ∈ variants.map Variant.category ∨ set.offers category = true by
    have nothing : (∅ : SymbolSet).offers category = false := by cases category <;> rfl
    rw [general, nothing]
    simp
  intro variants
  induction variants with
  | nil => simp
  | cons variant rest ih =>
      intro set
      rw [List.foldl_cons, ih, Variant.offers_contribute, List.map_cons, List.mem_cons,
        Bool.or_eq_true, decide_eq_true_iff, or_left_comm, or_assoc]

/-- A property of meanings that every variant keeps holds of the meaning of a spelling. -/
theorem symbols_induction {motive : SymbolSet → Prop} (table : KeywordTable) (spelling : String)
    (empty : motive ∅) (step : ∀ variant ∈ table.variants spelling, ∀ set, motive set →
      motive (variant.contribute set)) : motive (table.symbols spelling) :=
  List.foldlRecOn _ _ empty fun set holds variant member => step variant member set holds

/-- No spelling means a value. -/
theorem symbols_noun (table : KeywordTable) (spelling : String) :
    (table.symbols spelling).noun = none := by
  refine table.symbols_induction (motive := fun set => set.noun = none) spelling rfl
    fun variant _ set holds => ?_
  rw [Variant.contribute]
  split
  next builtin _ => cases builtin <;> exact holds
  next => exact holds

/-- A function of one operand that a spelling means is the identity or arithmetic. -/
theorem symbols_monad {table : KeywordTable} {spelling : String} {verb : Verb}
    (found : (table.symbols spelling).monad = some verb) :
    verb = .identity ∨ ∃ op, verb = .unary op := by
  suffices simple : ∀ other, (table.symbols spelling).monad = some other →
      other = .identity ∨ ∃ op, other = .unary op from simple verb found
  refine table.symbols_induction (motive := fun set => ∀ other, set.monad = some other →
    other = .identity ∨ ∃ op, other = .unary op) spelling ?_ fun variant _ set holds => ?_
  · intro other impossible
    cases impossible
  · rw [Variant.contribute]
    split
    next builtin _ =>
      cases builtin with
      | identity =>
          intro other here
          cases here
          exact .inl rfl
      | unary op =>
          intro other here
          cases here
          exact .inr ⟨op, rfl⟩
      | pipeline | reflex | binary op => exact holds
    next => exact holds

theorem symbols_proper (table : KeywordTable) (spelling : String) :
    (table.symbols spelling).Proper := by
  intro verb found
  obtain rfl | ⟨op, rfl⟩ := symbols_monad found
  · exact trivial
  · exact trivial

/-- A spelling without an implemented variant means nothing that could be used. -/
theorem symbols_isBlank {table : KeywordTable} {spelling : String}
    (declaredOnly : ∀ variant ∈ table.variants spelling, variant.isImplemented = false) :
    (table.symbols spelling).IsBlank := by
  refine table.symbols_induction (motive := SymbolSet.IsBlank) spelling
    ⟨rfl, rfl, rfl, rfl, rfl⟩ fun variant member set holds => ?_
  have unimplemented := declaredOnly variant member
  rw [Variant.isImplemented] at unimplemented
  rw [Variant.contribute]
  split
  next builtin meaning =>
    rw [meaning] at unimplemented
    contradiction
  next => exact holds

/-- A spelling has a variant that is bound to a builtin. -/
def Binds (table : KeywordTable) (spelling : String) (builtin : Builtin) : Prop :=
  ∃ variant ∈ table.variants spelling, variant.meaning = .implemented builtin

instance (table : KeywordTable) (spelling : String) (builtin : Builtin) :
    Decidable (table.Binds spelling builtin) :=
  inferInstanceAs (Decidable (∃ _ ∈ _, _))

theorem nodup_variants (table : KeywordTable) (spelling : String) :
    ((table.variants spelling).map Variant.category).Nodup := by
  rw [variants]
  cases found : table.entries.get? spelling with
  | none => exact List.nodup_nil
  | some variants => exact table.distinct _ (Catalog.exists_mem_of_get? found)

theorem Binds.mem_categories {table : KeywordTable} {spelling : String} {builtin : Builtin}
    (binds : table.Binds spelling builtin) : builtin.category ∈ table.categories spelling := by
  obtain ⟨variant, member, implemented⟩ := binds
  refine CategorySet.mem_ofList.mpr (List.mem_map.mpr ⟨variant, member, ?_⟩)
  rw [Variant.category, implemented]

/-- A spelling means the builtins that it is bound to. -/
theorem Binds.get?_symbols {table : KeywordTable} {spelling : String} {builtin : Builtin}
    (binds : table.Binds spelling builtin) :
    (table.symbols spelling).get? builtin.category = some builtin.symbol := by
  obtain ⟨variant, member, implemented⟩ := binds
  have sameCategory : variant.category = builtin.category := by
    rw [Variant.category, implemented]
  obtain ⟨before, _, _, final⟩ := Catalog.foldl_view_of_mem Variant.category
    (fun set : SymbolSet => set.get? builtin.category)
    (fun set variant => Variant.contribute variant set) (fun _ => True)
    (fun set (other : Variant) different => other.get?_contribute_of_ne set different)
    (fun _ _ _ => trivial) (table.nodup_variants spelling) member sameCategory ∅ trivial
  exact final.trans (Variant.get?_contribute implemented before)

theorem Binds.monad {table : KeywordTable} {spelling : String} {builtin : Builtin} {verb : Verb}
    (binds : table.Binds spelling builtin) (function : builtin.symbol = .monad verb) :
    (table.symbols spelling).monad = some verb := by
  have found := binds.get?_symbols
  rw [Builtin.category, function] at found
  simpa [Symbol.category, SymbolSet.get?] using found

theorem Binds.dyad {table : KeywordTable} {spelling : String} {op : BinaryOp}
    (binds : table.Binds spelling (.binary op)) : (table.symbols spelling).dyad = some op := by
  have found : ((table.symbols spelling).get? .dyad) = some (.dyad op) := binds.get?_symbols
  simpa [SymbolSet.get?] using found

end KeywordTable

end Tacit
