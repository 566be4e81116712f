import Mathlib.Data.List.Forall2
import Tacit.Proofs.Inquiry

/-!
# Checking lists item by item

A list is checked from its front, and the first item that does not pass decides what is reported.
-/

namespace Tacit

section Results

variable {ε α β : Type} {result : Except ε α} {next : α → Except ε β} {error : ε}

/-- A computation in two parts fails in the first part or after it. -/
theorem bind_eq_error_iff :
    (result >>= next) = .error error ↔
      result = .error error ∨ ∃ between, result = .ok between ∧ next between = .error error := by
  cases result <;> simp [bind, Except.bind]

theorem exists_eq_ok_iff : (∃ value, result = .ok value) ↔ ∀ error, result ≠ .error error := by
  cases result <;> simp

end Results

/-- The first item of a list that has a fault has this one. -/
inductive FirstFault {α ε : Type} (fault : α → ε → Prop) : List α → ε → Prop
  | here {item : α} {rest : List α} {error : ε} (faulty : fault item error) :
      FirstFault fault (item :: rest) error
  | later {item : α} {rest : List α} {error : ε} (faultless : ∀ other, ¬ fault item other)
      (inRest : FirstFault fault rest error) : FirstFault fault (item :: rest) error

section Faults

variable {α β ε : Type} {fault : α → ε → Prop} {items : List α} {error : ε}

theorem not_firstFault_nil : ¬ FirstFault fault [] error := nofun

theorem firstFault_cons_iff {item : α} :
    FirstFault fault (item :: items) error ↔
      fault item error ∨ (∀ other, ¬ fault item other) ∧ FirstFault fault items error := by
  constructor
  · rintro (⟨faulty⟩ | ⟨faultless, inRest⟩)
    · exact .inl faulty
    · exact .inr ⟨faultless, inRest⟩
  · rintro (faulty | ⟨faultless, inRest⟩)
    · exact .here faulty
    · exact .later faultless inRest

theorem firstFault_singleton_iff {item : α} :
    FirstFault fault [item] error ↔ fault item error := by
  rw [firstFault_cons_iff, or_iff_left fun later => not_firstFault_nil later.2]

theorem firstFault_append_iff {front : List α} :
    FirstFault fault (front ++ items) error ↔
      FirstFault fault front error ∨
        (∀ other, ¬ FirstFault fault front other) ∧ FirstFault fault items error := by
  induction front with
  | nil => simp [not_firstFault_nil]
  | cons item rest ih =>
      simp only [List.cons_append, firstFault_cons_iff, ih]
      grind

theorem firstFault_map {change : β → α} {sources : List β} :
    FirstFault fault (sources.map change) error ↔
      FirstFault (fun source => fault (change source)) sources error := by
  induction sources with
  | nil => exact iff_of_false not_firstFault_nil not_firstFault_nil
  | cons source rest ih => rw [List.map_cons, firstFault_cons_iff, firstFault_cons_iff, ih]

/-- Lists that look alike have the same first fault, if only the looks matter. -/
theorem firstFault_of_map_eq {γ : Type} (seen : γ → ε → Prop) {view : α → γ} {otherView : β → γ}
    {others : List β} (same : items.map view = others.map otherView) :
    FirstFault (fun item => seen (view item)) items error ↔
      FirstFault (fun other => seen (otherView other)) others error := by
  rw [← firstFault_map, same, firstFault_map]

/-- No fault comes first exactly if there is none. -/
theorem forall_not_firstFault_iff :
    (∀ error, ¬ FirstFault fault items error) ↔ ∀ item ∈ items, ∀ error, ¬ fault item error := by
  induction items with
  | nil => exact iff_of_true (fun _ => not_firstFault_nil) (by simp)
  | cons item rest ih =>
      rw [List.forall_mem_cons, ← ih]
      constructor
      · intro noneFirst
        have faultless : ∀ error, ¬ fault item error :=
          fun error faulty => noneFirst error (.here faulty)
        exact ⟨faultless, fun error inRest => noneFirst error (.later faultless inRest)⟩
      · rintro ⟨faultless, noneLater⟩ error (⟨faulty⟩ | ⟨_, inRest⟩)
        · exact faultless error faulty
        · exact noneLater error inRest

end Faults

section Making

variable {α β ε : Type} {make : α → Except ε β} {items : List α} {made : List β} {error : ε}

/-- A list is made exactly if each of its items is. -/
theorem mapM_eq_ok_iff :
    items.mapM make = .ok made ↔
      List.Forall₂ (fun item value => make item = .ok value) items made := by
  induction items generalizing made with
  | nil =>
      rw [List.mapM_nil, List.forall₂_nil_left_iff]
      constructor
      · intro same
        cases same
        rfl
      · rintro rfl
        rfl
  | cons item rest ih =>
      simp only [List.mapM_cons, bind_eq_ok_iff, ih, List.forall₂_cons_left_iff]
      constructor
      · rintro ⟨value, here, values, inRest, same⟩
        cases same
        exact ⟨value, values, here, inRest, rfl⟩
      · rintro ⟨value, values, here, inRest, rfl⟩
        exact ⟨value, here, values, inRest, rfl⟩

/-- What is reported of a list that cannot be made is its first fault. -/
theorem mapM_eq_error_iff {fault : α → ε → Prop}
    (tells : ∀ item error, make item = .error error ↔ fault item error) :
    items.mapM make = .error error ↔ FirstFault fault items error := by
  induction items with
  | nil => exact iff_of_false nofun not_firstFault_nil
  | cons item rest ih =>
      simp only [List.mapM_cons, firstFault_cons_iff, bind_eq_error_iff, ← ih, ← tells,
        ← ne_eq, ← exists_eq_ok_iff]
      refine or_congr_right ⟨?_, ?_⟩
      · rintro ⟨value, here, inRest | ⟨_, _, impossible⟩⟩
        · exact ⟨⟨value, here⟩, inRest⟩
        · cases impossible
      · rintro ⟨⟨value, here⟩, inRest⟩
        exact ⟨value, here, .inl inRest⟩

end Making

section Matching

variable {α β γ : Type} {related : α → β → Prop} {items : List α} {others : List β}

theorem map_eq_map_of_forall₂ {view : α → γ} {otherView : β → γ}
    (each : List.Forall₂ related items others)
    (same : ∀ item other, related item other → view item = otherView other) :
    items.map view = others.map otherView := by
  induction each with
  | nil => rfl
  | cons here _ ih => rw [List.map_cons, List.map_cons, same _ _ here, ih]

theorem exists_mem_of_forall₂ (each : List.Forall₂ related items others) {item : α}
    (member : item ∈ items) : ∃ other ∈ others, related item other := by
  induction each with
  | nil => cases member
  | cons here _ ih =>
      obtain rfl | later := List.mem_cons.mp member
      · exact ⟨_, List.mem_cons_self, here⟩
      · obtain ⟨other, inOthers, holds⟩ := ih later
        exact ⟨other, List.mem_cons_of_mem _ inOthers, holds⟩

end Matching

end Tacit
