import Tacit.Proofs.Expression
import Tacit.Proofs.StoredSettings
import Tacit.Stored.Graph

/-!
# Stored graphs are read back

A graph whose numbers are read back is read back as a whole, up to the nesting at which the reader
gives up.  Numbers are the only exception to be made: the reader rounds more than once, so that the
text of a finite number is not always read as the number.
-/

namespace Tacit

namespace Json

section Nesting

mutual

/-- How many arrays and objects stand inside one another. -/
def nesting : Json → Nat
  | array items => nestingOf items + 1
  | object fields => fieldNesting fields + 1
  | _ => 0

/-- The greatest nesting among items. -/
def nestingOf : List Json → Nat
  | [] => 0
  | item :: rest => max item.nesting (nestingOf rest)

/-- The greatest nesting among fields. -/
def fieldNesting : List (Option String × Json) → Nat
  | [] => 0
  | (_, value) :: rest => max value.nesting (fieldNesting rest)

end

variable {depth : Nat} {json : Json}

theorem nesting_array_le_iff {items : List Json} :
    (array items).nesting ≤ depth + 1 ↔ ∀ item ∈ items, item.nesting ≤ depth := by
  rw [nesting, Nat.add_le_add_iff_right]
  induction items with
  | nil => simp [nestingOf]
  | cons item rest ih => simp [nestingOf, ih]

theorem nesting_ofFields_le_iff {fields : List (String × Json)} :
    (ofFields fields).nesting ≤ depth + 1 ↔ ∀ field ∈ fields, field.2.nesting ≤ depth := by
  rw [ofFields, nesting, Nat.add_le_add_iff_right]
  induction fields with
  | nil => simp [fieldNesting]
  | cons field rest ih =>
      rw [List.map_cons, fieldNesting, Nat.max_le, ih, List.forall_mem_cons]

theorem isReadable_array {items : List Json} :
    (array items).isReadable (depth + 1) = true ↔ ∀ item ∈ items, item.isReadable depth = true := by
  simp only [isReadable, Nat.zero_lt_succ, decide_true, Bool.true_and, Nat.add_sub_cancel]
  induction items with
  | nil => simp [areReadable]
  | cons item rest ih => simp [areReadable, ih]

theorem isReadable_ofFields {fields : List (String × Json)} :
    (ofFields fields).isReadable (depth + 1) = true ↔
      ∀ field ∈ fields, field.2.isReadable depth = true := by
  simp only [ofFields, isReadable, Nat.zero_lt_succ, decide_true, Bool.true_and, Nat.add_sub_cancel]
  induction fields with
  | nil => simp [fieldsAreReadable]
  | cons field rest ih =>
      rw [List.map_cons, fieldsAreReadable, Bool.and_eq_true, ih, List.forall_mem_cons]
      simp

/-- A numeral that stands for a number of 64 bits or for a finite one. -/
def HasValue (numeral : Numeral) : Prop :=
  (number numeral).toUInt64?.isSome = true ∨ (floatOf? numeral).isSome = true

/-- Whether a legible value can be read is decided by its nesting alone. -/
theorem Legible.isReadable_iff (legible : json.Legible HasValue) :
    json.isReadable depth = true ↔ json.nesting ≤ depth := by
  induction legible generalizing depth with
  | null => simp [isReadable, nesting]
  | bool value => simp [isReadable, nesting]
  | number holds => simpa [isReadable, nesting, HasValue] using holds
  | string text => simp [ofString, isReadable, nesting]
  | array each ih =>
      cases depth with
      | zero => simp [isReadable, nesting]
      | succ depth =>
          rw [isReadable_array, nesting_array_le_iff]
          exact forall₂_congr fun item member => ih item member
  | object each ih =>
      cases depth with
      | zero => simp [ofFields, isReadable, nesting]
      | succ depth =>
          rw [isReadable_ofFields, nesting_ofFields_le_iff]
          exact forall₂_congr fun field member => ih field member

end Nesting

theorem tagged?_ofFields {kind : Json} {fields : List (String × Json)}
    (distinct : ((("type", kind) :: fields).map Prod.fst).Nodup) :
    (ofFields (("type", kind) :: fields)).tagged? = some (kind, ofFields fields) := by
  obtain ⟨fresh, _⟩ := List.nodup_cons.mp distinct
  have others : (fields.map fun field => (some field.1, field.2)).filter
      (fun field => field.1 ≠ some "type") = fields.map fun field => (some field.1, field.2) := by
    refine List.filter_eq_self.mpr fun field member => ?_
    obtain ⟨entry, inFields, rfl⟩ := List.mem_map.mp member
    have different : entry.1 ≠ "type" := fun same =>
      fresh (List.mem_map.mpr ⟨entry, inFields, same⟩)
    simpa using different
  rw [ofFields, tagged?, field?_eq_lookup distinct]
  change some (kind, object (((some "type", kind) :: fields.map fun field =>
    (some field.1, field.2)).filter fun field => field.1 ≠ some "type")) = _
  rw [List.filter_cons_of_neg (by simp), others]
  rfl

theorem kind?_ofString {kinds : List String} {name : String} (member : name ∈ kinds)
    (byPlace : Bool) : (ofString name).kind? kinds byPlace = some name :=
  if_pos member

theorem legible_ofFloat (value : Float) : (ofFloat value).Legible Numeral.Regular := by
  rw [ofFloat]
  split
  · exact .number (Numeral.regular_ofFloat (by simp [layout]) value)
  · exact .null

theorem hasValue_toDigits (index : UInt64) :
    HasValue { whole := Nat.toDigits 10 index.toNat } :=
  .inl (Option.isSome_iff_exists.mpr ⟨index, toUInt64?_ofNat index⟩)

theorem legible_of_toFloat? {value : Float} (reads : (ofFloat value).toFloat? = some value) :
    (ofFloat value).Legible HasValue := by
  rw [ofFloat] at reads ⊢
  split
  next =>
    rw [if_pos ‹_›] at reads
    exact .number (.inr (Option.isSome_iff_exists.mpr ⟨value, reads⟩))
  next => exact .null

end Json

namespace Expr

theorem toJsons_eq_map (exprs : List Expr) : toJsons exprs = exprs.map toJson := by
  induction exprs with
  | nil => rfl
  | cons expr rest ih => rw [toJsons, ih, List.map_cons]

section Written

variable {numbers : Numeral → Prop} {expr : Expr}

theorem legible_tagged {kind : String} {fields : List (String × Json)}
    (each : ∀ field ∈ fields, field.2.Legible numbers) :
    (Json.ofFields (("type", .ofString kind) :: fields)).Legible numbers :=
  .object (List.forall_mem_cons.mpr ⟨.string kind, each⟩)

/-- A stored expression has numbers of a kind if its indices and its own numbers are of it. -/
theorem legible (naturals : ∀ index : UInt64, numbers { whole := Nat.toDigits 10 index.toNat })
    (floats : ∀ value, .number value ∈ expr.leaves → (Json.ofFloat value).Legible numbers) :
    expr.toJson.Legible numbers := by
  induction expr using nestedInduction with
  | keyword spelling => exact legible_tagged (by simpa using .string spelling)
  | number value => exact legible_tagged (by simpa using floats value List.mem_cons_self)
  | group children categories ih =>
      have inside : (Json.array (toJsons children)).Legible numbers := by
        rw [toJsons_eq_map]
        refine Json.legible_array_map fun child member => ih child member fun value inChild => ?_
        exact floats value (mem_leavesOf.mpr ⟨child, member, inChild⟩)
      cases categories with
      | none => exact legible_tagged (by simpa using inside)
      | some categories =>
          exact legible_tagged (by simpa using ⟨inside, categories.legible numbers⟩)
  | reference id => exact legible_tagged (by simpa using .string id)
  | search text => exact legible_tagged (by simpa using .string text)
  | stub categories index =>
      exact legible_tagged (by simpa using ⟨categories.legible numbers, .number (naturals index)⟩)

theorem ofJsonWithin?_tagged {kind : String} {fields : List (String × Json)} {inside : Bool}
    {levels : Nat}
    (distinct : ((("type", Json.ofString kind) :: fields).map Prod.fst).Nodup)
    (member : kind ∈ kinds) :
    ofJsonWithin? inside (levels + 1) (.ofFields (("type", .ofString kind) :: fields)) =
      ofBody? (ofJsonWithin? true levels) kind (.ofFields fields) := by
  rw [ofJsonWithin?, Json.tagged?_ofFields distinct]
  change (((Json.ofString kind).kind? kinds inside).bind fun kind =>
    ofBody? (ofJsonWithin? true levels) kind (.ofFields fields)) = _
  rw [Json.kind?_ofString member]
  rfl

/-- A stored expression is read back within as many levels as its arrays and objects are nested. -/
theorem ofJsonWithin?_toJson {levels : Nat} {inside : Bool}
    (deep : expr.toJson.nesting ≤ levels + 1)
    (floats : ∀ value, .number value ∈ expr.leaves → (Json.ofFloat value).toFloat? = some value) :
    ofJsonWithin? inside (levels + 1) expr.toJson = some expr := by
  induction expr using nestedInduction generalizing levels inside with
  | keyword spelling =>
      rw [toJson, ofJsonWithin?_tagged (by simp) (by simp [kinds]), ofBody?,
        Json.record?_ofFields (by simp)]
      rfl
  | number value =>
      rw [toJson, ofJsonWithin?_tagged (by simp) (by simp [kinds]), ofBody?,
        Json.record?_ofFields (by simp)]
      change (Json.ofFloat value).toFloat?.map number = _
      rw [floats value List.mem_cons_self]
      rfl
  | group children categories ih =>
      have items : (Json.array (toJsons children)).nesting ≤ levels := by
        cases categories <;> exact Json.nesting_ofFields_le_iff.mp deep ("children", _) (by simp)
      obtain ⟨levels, rfl⟩ := Nat.exists_eq_add_one_of_ne_zero (Nat.ne_zero_of_lt items)
      have read : (Json.array (toJsons children)).toList? (ofJsonWithin? true (levels + 1)) =
          some children := by
        rw [toJsons_eq_map] at items ⊢
        refine Json.toList?_array_map fun child member => ih child member ?_ fun value inChild => ?_
        · have below := Json.nesting_array_le_iff.mp items _ (List.mem_map_of_mem member)
          exact Nat.le_succ_of_le below
        · exact floats value (mem_leavesOf.mpr ⟨child, member, inChild⟩)
      cases categories with
      | none =>
          rw [toJson, ofJsonWithin?_tagged (by simp) (by simp [kinds]), ofBody?,
            Json.record?_ofFields (by simp)]
          change ((Json.array (toJsons children)).toList? _).bind (fun children =>
            some (group children none)) = _
          rw [read]
          rfl
      | some categories =>
          rw [toJson, ofJsonWithin?_tagged (by simp) (by simp [kinds]), ofBody?,
            Json.record?_ofFields (by simp)]
          change ((Json.array (toJsons children)).toList? _).bind (fun children =>
            ((CategorySet.ofJson? Json.isVoid categories.toJson).map some).bind fun categories =>
              some (group children categories)) = _
          rw [read, categories.ofJson?_toJson]
          rfl
  | reference id =>
      rw [toJson, ofJsonWithin?_tagged (by simp) (by simp [kinds]), ofBody?,
        Json.record?_ofFields (by simp)]
      rfl
  | search text =>
      rw [toJson, ofJsonWithin?_tagged (by simp) (by simp [kinds]), ofBody?,
        Json.record?_ofFields (by simp)]
      rfl
  | stub categories index =>
      rw [toJson, ofJsonWithin?_tagged (by simp) (by simp [kinds]), ofBody?,
        Json.record?_ofFields (by simp)]
      change ((CategorySet.ofJson? Json.isVoid categories.toJson)).bind (fun categories =>
        (Json.ofNat index.toNat).toUInt64?.bind fun index => some (stub categories index)) = _
      rw [categories.ofJson?_toJson, Json.toUInt64?_ofNat]
      rfl

/-- A stored expression is read back in a graph if it does not nest too deep there. -/
theorem ofJson?_toJson
    (floats : ∀ value, .number value ∈ expr.leaves → (Json.ofFloat value).toFloat? = some value) :
    ofJson? expr.toJson = if expr.toJson.nesting ≤ Json.maxDepth - 1 then some expr else none := by
  have legible : expr.toJson.Legible Json.HasValue :=
    legible Json.hasValue_toDigits fun value member =>
      Json.legible_of_toFloat? (floats value member)
  rw [ofJson?]
  by_cases deep : expr.toJson.nesting ≤ Json.maxDepth - 1
  · rw [if_pos deep, if_pos (legible.isReadable_iff.mpr deep)]
    exact ofJsonWithin?_toJson deep floats
  · rw [if_neg deep, if_neg (fun readable => deep (legible.isReadable_iff.mp readable))]

end Written

end Expr

/-- The text of a number is read as the number, bit for bit. -/
def Json.ReadsBack (value : Float) : Prop :=
  (parse? (ofFloat value).render).bind toFloat? = some value

instance (value : Float) : Decidable (Json.ReadsBack value) :=
  inferInstanceAs (Decidable
    ((Json.parse? (Json.ofFloat value).render).bind Json.toFloat? = some value))

-- Not every finite number is read back, so the assumption is made of the numbers of a graph only.
example : (10.057142857142857 : Float).isFinite = true ∧ ¬ Json.ReadsBack 10.057142857142857 := by
  decide +kernel

theorem Json.ReadsBack.toFloat?_ofFloat {value : Float} (readsBack : ReadsBack value) :
    (ofFloat value).toFloat? = some value := by
  rw [ReadsBack, (legible_ofFloat value).parse?_render] at readsBack
  exact readsBack

namespace Graph

/-- A number stands somewhere in a graph. -/
def HasNumber (graph : Graph) (value : Float) : Prop :=
  ∃ id expr, graph.get? id = some expr ∧ Expr.number value ∈ expr.leaves

theorem legible (graph : Graph) : graph.toJson.Legible Numeral.Regular :=
  .object (List.forall_mem_map.mpr fun entry _ =>
    entry.2.legible (fun _ => Json.regular_toDigits _) fun value _ => Json.legible_ofFloat value)

/-- A graph of finite numbers that are read back is read back from its text, bit for bit and with
the categories of its groups as they were, if not too many arrays and objects stand inside one
another in the text.  Otherwise nothing is read. -/
theorem text_reads_back (graph : Graph)
    (finite : ∀ value, graph.HasNumber value → value.isFinite = true)
    (readsBack : ∀ value, graph.HasNumber value → value.isFinite = true → Json.ReadsBack value) :
    ofText? graph.toJson.render =
      if graph.toJson.nesting ≤ Json.maxDepth then some graph else none := by
  have each : ∀ entry ∈ graph.entries, Expr.ofJson? entry.2.toJson =
      if entry.2.toJson.nesting ≤ Json.maxDepth - 1 then some entry.2 else none := by
    intro entry member
    refine Expr.ofJson?_toJson fun value inEntry => ?_
    have stands : graph.HasNumber value :=
      ⟨entry.1, entry.2, Catalog.get?_eq_some_iff.mpr member, inEntry⟩
    exact (readsBack value stands (finite value stands)).toFloat?_ofFloat
  have levels : graph.toJson.nesting ≤ Json.maxDepth ↔
      ∀ entry ∈ graph.entries, entry.2.toJson.nesting ≤ Json.maxDepth - 1 :=
    Json.nesting_ofFields_le_iff.trans List.forall_mem_map
  rw [ofText?, graph.legible.parse?_render]
  change (graph.toJson.toEntries? Expr.ofJson?).map Catalog.ofList = _
  by_cases deep : graph.toJson.nesting ≤ Json.maxDepth
  · rw [if_pos deep, toJson, Json.toEntries?_ofFields_map Expr.toJson]
    · exact congrArg some graph.ofList_entries
    · intro entry member
      rw [each entry member, if_pos (levels.mp deep entry member)]
  · obtain ⟨entry, member, tooDeep⟩ : ∃ entry ∈ graph.entries,
        ¬ entry.2.toJson.nesting ≤ Json.maxDepth - 1 := by
      simpa using fun all => deep (levels.mpr all)
    rw [if_neg deep, toJson, Json.toEntries?_ofFields_eq_none Expr.toJson member]
    · rfl
    · rw [each entry member, if_neg tooDeep]

/-- Every kind of expression, among them groups without categories, with none and with one, the
greatest index, both zeros, and names with quotes and control characters. -/
def varied : Graph := .ofList
  [("", .group [.number (-0.0), .keyword "+", .group [.number 2.5, .search "a\"b\\c\n\x01"] none]
      (some {.noun})),
    ("\"é\x1f😀", .group [.reference "", .stub ∅ 18446744073709551615] (some ∅)),
    ("z", .group [] none)]

theorem varied_reads_back : ofText? varied.toJson.render = some varied := by
  have numbers : ∀ value, varied.HasNumber value → value = -0.0 ∨ value = 2.5 := by
    rintro value ⟨id, expr, found, member⟩
    obtain old | listed := Catalog.mem_of_mem_insertMany (Catalog.get?_eq_some_iff.mp found)
    · cases old
    · simp only [List.mem_cons, Prod.mk.injEq, List.not_mem_nil, or_false] at listed
      obtain ⟨_, rfl⟩ | ⟨_, rfl⟩ | ⟨_, rfl⟩ := listed
      · simpa [Expr.leaves, Expr.leavesOf] using member
      · simp [Expr.leaves, Expr.leavesOf] at member
      · simp [Expr.leaves, Expr.leavesOf] at member
  have shallow : varied.toJson.nesting ≤ Json.maxDepth := by decide +kernel
  have reads := text_reads_back varied ?_ ?_
  · rwa [if_pos shallow] at reads
  · intro value stands
    obtain rfl | rfl := numbers value stands <;> decide +kernel
  · intro value stands _
    obtain rfl | rfl := numbers value stands <;> decide +kernel

end Graph

end Tacit
