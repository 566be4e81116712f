import Tacit.Proofs.Catalog
import Tacit.Proofs.JsonParts
import Tacit.Proofs.Keyword
import Tacit.Stored.Settings

/-!
# Stored settings and vocabularies are read back

What is written of settings and of a vocabulary is spelled out as text: fields in a fixed order, no
white space, a builtin only where there is one, spellings in ascending order.  Reading takes each of
these texts back to the data it was written from.
-/

namespace Tacit

open Json

section Categories

theorem Category.ofJson?_toJson (isNothing : Json → Bool) (category : Category) :
    ofJson? isNothing category.toJson = some category :=
  ofName?_name category

theorem CategorySet.ofList_toList (set : CategorySet) : ofList set.toList = set := by
  have same : ∀ category, (ofList set.toList).get category = set.get category := fun category =>
    Bool.eq_iff_iff.mpr (CategorySet.mem_ofList.trans (CategorySet.mem_toList category set))
  exact ByCategory.ext (same .noun) (same .monad) (same .dyad) (same .conjunction) (same .adverb)

theorem CategorySet.ofJson?_toJson (isNothing : Json → Bool) (set : CategorySet) :
    ofJson? isNothing set.toJson = some set := by
  rw [ofJson?, toJson, toList?_array_map fun category _ => category.ofJson?_toJson isNothing,
    Option.map_some, ofList_toList]

theorem CategorySet.legible (numbers : Numeral → Prop) (set : CategorySet) :
    set.toJson.Legible numbers := by
  refine legible_array_map fun category _ => ?_
  exact .string category.name

end Categories

section Texts

/-- The text of a set of categories. -/
def CategorySet.text (set : CategorySet) : String :=
  listText (set.toList.map fun category => quoted category.name)

/-- The text of a rule. -/
def RuleEntry.text (entry : RuleEntry) : String :=
  recordText [("pattern", quoted entry.pattern), ("result", entry.result.text)]

/-- The text of settings. -/
def Settings.text (settings : Settings) : String :=
  recordText [("max_tokens", toString settings.maxTokens.toNat),
    ("grammar", listText (settings.grammar.map RuleEntry.text)),
    ("max_expression_depth", toString settings.maxDepth.toNat),
    ("reject_non_finite", toString settings.rejectNonFinite)]

/-- The text of a variant.  A builtin that is not there is left out. -/
def VariantEntry.text (entry : VariantEntry) : String :=
  recordText ([("name", quoted entry.name), ("aliases", listText (entry.aliases.map quoted)),
    ("category", quoted entry.category.name)]
      ++ (entry.builtin.map fun builtin => ("builtin", quoted builtin)).toList)

/-- The text of a vocabulary. -/
def Vocabulary.text (vocabulary : Vocabulary) : String :=
  recordText (vocabulary.entries.map fun entry =>
    (entry.1, listText (entry.2.map VariantEntry.text)))

theorem CategorySet.render_toJson (set : CategorySet) : set.toJson.render = set.text := by
  simp only [toJson, Category.toJson, text, render_array, List.map_map, Function.comp_def,
    render_ofString]

theorem RuleEntry.render_toJson (entry : RuleEntry) : entry.toJson.render = entry.text := by
  simp only [toJson, text, render_ofFields, List.map_cons, List.map_nil, render_ofString,
    CategorySet.render_toJson]

theorem Settings.render_toJson (settings : Settings) :
    settings.toJson.render = settings.text := by
  simp only [toJson, text, render_ofFields, List.map_cons, List.map_nil, render_ofNat, render_bool,
    render_array, List.map_map, Function.comp_def, RuleEntry.render_toJson]

theorem VariantEntry.render_toJson (entry : VariantEntry) : entry.toJson.render = entry.text := by
  cases builtin : entry.builtin <;>
    simp only [toJson, text, builtin, Option.map_some, Option.map_none, Option.toList,
      List.cons_append, List.nil_append, render_ofFields, List.map_cons, List.map_nil,
      render_ofString, render_array, List.map_map, Function.comp_def, Category.toJson]

theorem Vocabulary.render_toJson (vocabulary : Vocabulary) :
    vocabulary.toJson.render = vocabulary.text := by
  simp only [toJson, text, render_ofFields, List.map_map, Function.comp_def, render_array,
    VariantEntry.render_toJson]

end Texts

section Rules

variable (entry : RuleEntry) (settings : Settings)

theorem RuleEntry.ofJson?_toJson : ofJson? entry.toJson = some entry := by
  rw [ofJson?, toJson, record?_ofFields (by simp)]
  change ((CategorySet.ofJson? isNull entry.result.toJson).bind fun result =>
    some (RuleEntry.mk entry.pattern result)) = _
  rw [CategorySet.ofJson?_toJson]
  rfl

theorem RuleEntry.legible (numbers : Numeral → Prop) : entry.toJson.Legible numbers := by
  refine .object ?_
  simp only [List.forall_mem_cons]
  exact ⟨.string entry.pattern, entry.result.legible numbers, by simp⟩

theorem Settings.ofJson?_toJson : ofJson? settings.toJson = some settings := by
  have grammar : (array (settings.grammar.map RuleEntry.toJson)).toList? RuleEntry.ofJson? =
      some settings.grammar := toList?_array_map fun entry _ => entry.ofJson?_toJson
  rw [ofJson?, toJson, record?_ofFields (by simp)]
  change ((ofNat settings.maxTokens.toNat).toUInt64?.bind fun maxTokens =>
    ((array (settings.grammar.map RuleEntry.toJson)).toList? RuleEntry.ofJson?).bind fun grammar =>
      (ofNat settings.maxDepth.toNat).toUInt64?.bind fun maxDepth =>
        some (Settings.mk maxTokens grammar maxDepth settings.rejectNonFinite)) = _
  rw [toUInt64?_ofNat, grammar, toUInt64?_ofNat]
  rfl

theorem Settings.legible : settings.toJson.Legible Numeral.Regular := by
  refine .object ?_
  simp only [List.forall_mem_cons]
  exact ⟨.number (regular_toDigits _), legible_array_map fun entry _ => entry.legible _,
    .number (regular_toDigits _), .bool _, by simp⟩

end Rules

section Variants

variable (entry : VariantEntry) (vocabulary : Vocabulary)

theorem VariantEntry.ofJson?_toJson : ofJson? entry.toJson = some entry := by
  have aliases : (array (entry.aliases.map ofString)).toList? toText? = some entry.aliases :=
    toList?_array_map fun _ _ => rfl
  obtain ⟨name, aliasNames, category, builtin⟩ := entry
  rw [ofJson?, toJson, record?_ofFields (by cases builtin <;> simp)]
  cases builtin
  all_goals
    change (((array (aliasNames.map ofString)).toList? toText?).bind fun aliases =>
      (Category.ofJson? isNull category.toJson).bind fun category =>
        some (VariantEntry.mk name aliases category _)) = _
    rw [aliases, Category.ofJson?_toJson]
    rfl

theorem VariantEntry.legible (numbers : Numeral → Prop) : entry.toJson.Legible numbers := by
  refine .object ?_
  rw [List.forall_mem_append]
  simp only [List.forall_mem_cons]
  refine ⟨⟨.string entry.name, legible_array_map fun text _ => .string text,
    .string entry.category.name, by simp⟩, ?_⟩
  cases entry.builtin with
  | none => simp
  | some builtin => simpa using .string builtin

theorem Vocabulary.ofJson?_toJson : ofJson? vocabulary.toJson = some vocabulary := by
  have variants : ∀ entries : List VariantEntry,
      (array (entries.map VariantEntry.toJson)).toList? VariantEntry.ofJson? = some entries :=
    fun entries => toList?_array_map fun entry _ => entry.ofJson?_toJson
  rw [ofJson?, toJson, toEntries?_ofFields_map (fun entries => array (entries.map
    VariantEntry.toJson)) fun entry _ => variants entry.2]
  exact congrArg some vocabulary.ofList_entries

theorem Vocabulary.legible (numbers : Numeral → Prop) : vocabulary.toJson.Legible numbers :=
  .object (List.forall_mem_map.mpr fun _ _ =>
    legible_array_map fun variant _ => variant.legible numbers)

end Variants

/-- Settings and vocabularies are written as the texts spelled out above, in which exactly quotes,
backslashes and control characters are escaped and spellings ascend, and each text is read back as
what it was written from. -/
theorem Settings.stored_texts_read_back :
    (∀ settings : Settings, settings.toJson.render = settings.text ∧
      Settings.ofText? settings.text = some settings) ∧
    (∀ vocabulary : Vocabulary, vocabulary.toJson.render = vocabulary.text ∧
      vocabulary.names.Pairwise (· < ·) ∧ Vocabulary.ofText? vocabulary.text = some vocabulary) ∧
    ∀ char, escape char = [char] ↔ char ≠ '"' ∧ char ≠ '\\' ∧ 0x20 ≤ char.toNat := by
  refine ⟨fun settings => ?_, fun vocabulary => ?_, escape_eq_self_iff⟩
  · refine ⟨settings.render_toJson, ?_⟩
    rw [← settings.render_toJson, Settings.ofText?, settings.legible.parse?_render]
    exact settings.ofJson?_toJson
  · refine ⟨vocabulary.render_toJson, List.pairwise_map.mpr vocabulary.ascending, ?_⟩
    rw [← vocabulary.render_toJson, Vocabulary.ofText?, (vocabulary.legible _).parse?_render]
    exact vocabulary.ofJson?_toJson

end Tacit
