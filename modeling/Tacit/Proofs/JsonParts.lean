import Tacit.Proofs.Json

/-!
# The parts of JSON values

Arrays and records are written part by part and read part by part, so what is read back of the parts
is read back of the whole.  In the same way their texts are put together from the texts of their
parts, without white space.
-/

namespace Tacit.Json

section Numerals

variable {numbers : Numeral → Prop}

theorem legible_array_map {α : Type} {write : α → Json} {values : List α}
    (each : ∀ value ∈ values, (write value).Legible numbers) :
    (array (values.map write)).Legible numbers :=
  .array (List.forall_mem_map.mpr each)

theorem regular_toDigits (value : Nat) :
    ({ whole := Nat.toDigits 10 value } : Numeral).Regular where
  whole_ne := Nat.toDigits_ne_nil
  isWhole _ := Numeral.isDigit_of_mem_toDigits
  isFraction _ member := nomatch member
  leading := by
    by_cases zero : value = 0
    · exact .inl (by rw [zero]; rfl)
    · exact .inr (Numeral.head?_toDigits_ne zero)

theorem toUInt64?_ofNat (value : UInt64) : toUInt64? (ofNat value.toNat) = some value := by
  have bounded : value.toNat < Nat.pow 2 64 := value.toNat_lt
  rw [ofNat, toUInt64?]
  simp only [Numeral.natural_toDigits, if_pos bounded, UInt64.ofNat_toNat]

end Numerals

section Parts

variable {α β : Type} {write : α → β}

theorem mapM_map_eq_some {read? : β → Option α} {values : List α}
    (each : ∀ value ∈ values, read? (write value) = some value) :
    (values.map write).mapM read? = some values := by
  induction values with
  | nil => rfl
  | cons value values ih =>
      obtain ⟨here, later⟩ := List.forall_mem_cons.mp each
      rw [List.map_cons, List.mapM_cons, here, ih later]
      rfl

theorem mapM_eq_none {read? : β → Option α} {items : List β} {item : β} (member : item ∈ items)
    (fails : read? item = none) : items.mapM read? = none := by
  induction items with
  | nil => contradiction
  | cons first rest ih =>
      rw [List.mapM_cons]
      obtain rfl | later := List.mem_cons.mp member
      · rw [fails]
        rfl
      · rw [ih later]
        cases read? first <;> rfl

theorem toList?_array_map {write : α → Json} {read? : Json → Option α} {values : List α}
    (each : ∀ value ∈ values, read? (write value) = some value) :
    (array (values.map write)).toList? read? = some values :=
  mapM_map_eq_some each

theorem toEntries?_ofFields_map (write : α → Json) {read? : Json → Option α}
    {entries : List (String × α)}
    (each : ∀ entry ∈ entries, read? (write entry.2) = some entry.2) :
    (ofFields (entries.map fun entry => (entry.1, write entry.2))).toEntries? read? =
      some entries := by
  rw [ofFields, List.map_map, toEntries?]
  refine mapM_map_eq_some fun entry member => ?_
  change ((read? (write entry.2)).bind fun value => some (entry.1, value)) = some entry
  rw [each entry member]
  rfl

theorem toEntries?_ofFields_eq_none (write : α → Json) {read? : Json → Option α}
    {entries : List (String × α)} {entry : String × α} (member : entry ∈ entries)
    (fails : read? (write entry.2) = none) :
    (ofFields (entries.map fun entry => (entry.1, write entry.2))).toEntries? read? = none := by
  rw [ofFields, List.map_map, toEntries?]
  refine mapM_eq_none (List.mem_map_of_mem member) ?_
  change ((read? (write entry.2)).bind fun value => some (entry.1, value)) = none
  rw [fails]
  rfl

end Parts

section Records

variable {fields : List (String × Json)} (distinct : (fields.map Prod.fst).Nodup)

include distinct

theorem field?_eq_lookup (name : String) :
    field? (fields.map fun field => (some field.1, field.2)) name = some (fields.lookup name) := by
  induction fields with
  | nil => rfl
  | cons field fields ih =>
      obtain ⟨isNew, restDistinct⟩ := List.nodup_cons.mp distinct
      by_cases same : field.1 = name
      · have others : (fields.map fun field => (some field.1, field.2)).filter
            (fun field => field.1 = some name) = [] := by
          refine List.filter_eq_nil_iff.mpr fun other member found => isNew ?_
          obtain ⟨entry, inRest, rfl⟩ := List.mem_map.mp member
          have named : entry.1 = field.1 := by simpa [same] using found
          exact named ▸ List.mem_map_of_mem inRest
        simp [field?, List.lookup, same, others]
      · have unlike : (name == field.1) = false := beq_false_of_ne (Ne.symm same)
        simpa [field?, List.lookup, same, unlike] using ih restDistinct

/-- A written record has its fields under their names, and none under other names. -/
theorem record?_ofFields (names : List String) :
    (ofFields fields).record? names = some (names.map fun name => fields.lookup name) := by
  rw [ofFields, record?, if_pos (by simp), funext (field?_eq_lookup distinct)]
  exact List.mapM_pure

end Records

section Rendering

/-- A text between quotes, its characters escaped where they have to be. -/
def quoted (text : String) : String := "\"" ++ String.ofList (text.toList.flatMap escape) ++ "\""

/-- Texts in brackets, with commas between them. -/
def listText (items : List String) : String := "[" ++ ",".intercalate items ++ "]"

/-- Texts under names in braces, with commas between them. -/
def recordText (fields : List (String × String)) : String :=
  "\x7b" ++ ",".intercalate (fields.map fun field => quoted field.1 ++ ":" ++ field.2) ++ "\x7d"

/-- A character stands for itself unless it is a quote, a backslash or a control character. -/
theorem escape_eq_self_iff (char : Char) :
    escape char = [char] ↔ char ≠ '"' ∧ char ≠ '\\' ∧ 0x20 ≤ char.toNat := by
  rw [escape]
  split_ifs <;> simp_all

theorem render_ofString (text : String) : (ofString text).render = quoted text := by
  rw [← String.toList_inj]
  simp [render, ofString, chars, stringChars, quoted]

theorem render_bool (value : Bool) : (bool value).render = toString value := by
  cases value <;> rfl

theorem render_ofNat (value : Nat) : (ofNat value).render = toString value := by
  simp [render, ofNat, chars, Numeral.chars]
  rfl

theorem itemChars_eq_intercalate (items : List Json) :
    itemChars items = List.intercalate [','] (items.map chars) := by
  induction items with
  | nil => rfl
  | cons item items ih =>
      cases items with
      | nil => simp [itemChars]
      | cons next others =>
          rw [itemChars.eq_3 _ _ (List.cons_ne_nil _ _), ih]
          simp

theorem fieldChars_eq_intercalate (fields : List (String × Json)) :
    fieldChars (fields.map fun field => (some field.1, field.2)) =
      List.intercalate [','] (fields.map fun field =>
        stringChars field.1 ++ ':' :: field.2.chars) := by
  induction fields with
  | nil => rfl
  | cons field fields ih =>
      cases fields with
      | nil => simp [fieldChars]
      | cons next others =>
          rw [List.map_cons, fieldChars.eq_3 _ _ _ (by simp), ih]
          simp

theorem render_array (items : List Json) : (array items).render = listText (items.map render) := by
  rw [← String.toList_inj]
  simp [render, chars, listText, itemChars_eq_intercalate, Function.comp_def]

theorem render_ofFields (fields : List (String × Json)) :
    (ofFields fields).render = recordText (fields.map fun field => (field.1, field.2.render)) := by
  rw [← String.toList_inj]
  simp [render, ofFields, chars, recordText, fieldChars_eq_intercalate, Function.comp_def, quoted,
    stringChars]

end Rendering

end Tacit.Json
