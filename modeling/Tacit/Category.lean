/-!
# Syntactic categories

Every word of the language, and every group of words, can be used in one or more of five
categories.  A `CategorySet` lists the categories one word offers; listings always follow the
order of `Category.all`.
-/

namespace Tacit

/-- The ways a word or a group of words can be used. -/
inductive Category where
  /-- A value. -/
  | noun
  /-- A function of one operand. -/
  | monad
  /-- A function of two operands. -/
  | dyad
  /-- An operator that joins two functions. -/
  | conjunction
  /-- An operator that changes one function. -/
  | adverb
  deriving DecidableEq

namespace Category

/-- All categories, in the order of every listing. -/
def all : List Category := [noun, monad, dyad, conjunction, adverb]

/-- The word for a category in rules, tables and messages. -/
def name : Category → String
  | noun => "noun"
  | monad => "monad"
  | dyad => "dyad"
  | conjunction => "conjunction"
  | adverb => "adverb"

/-- The word for a category in descriptions of values. -/
def title : Category → String
  | noun => "Noun"
  | monad => "Monad"
  | dyad => "Dyad"
  | conjunction => "Conjunction"
  | adverb => "Adverb"

/-- The category with exactly this name. -/
def ofName? (text : String) : Option Category :=
  all.find? fun category => category.name = text

theorem mem_all (category : Category) : category ∈ all := by
  cases category <;> simp [all]

@[simp]
theorem ofName?_name (category : Category) : ofName? category.name = some category := by
  cases category <;> rfl

end Category

/-- One entry for each category. -/
@[ext]
structure ByCategory (α : Type) where
  /-- The entry for nouns. -/
  noun : α
  /-- The entry for monads. -/
  monad : α
  /-- The entry for dyads. -/
  dyad : α
  /-- The entry for conjunctions. -/
  conjunction : α
  /-- The entry for adverbs. -/
  adverb : α
  deriving DecidableEq

namespace ByCategory

variable {α : Type}

/-- The same entry for every category. -/
def replicate (value : α) : ByCategory α := ⟨value, value, value, value, value⟩

/-- The entry of one category. -/
def get (entries : ByCategory α) : Category → α
  | .noun => entries.noun
  | .monad => entries.monad
  | .dyad => entries.dyad
  | .conjunction => entries.conjunction
  | .adverb => entries.adverb

/-- Replace the entry of one category. -/
def set (entries : ByCategory α) (category : Category) (value : α) : ByCategory α :=
  match category with
  | .noun => { entries with noun := value }
  | .monad => { entries with monad := value }
  | .dyad => { entries with dyad := value }
  | .conjunction => { entries with conjunction := value }
  | .adverb => { entries with adverb := value }

@[simp]
theorem get_replicate (value : α) (category : Category) :
    (replicate value).get category = value := by
  cases category <;> rfl

@[simp]
theorem get_set_self (entries : ByCategory α) (category : Category) (value : α) :
    (entries.set category value).get category = value := by
  cases category <;> rfl

theorem get_set_of_ne (entries : ByCategory α) {written read : Category} (value : α)
    (different : read ≠ written) : (entries.set written value).get read = entries.get read := by
  cases written <;> cases read <;> simp_all [get, set]

end ByCategory

/-- The categories a word offers. -/
abbrev CategorySet := ByCategory Bool

namespace CategorySet

instance : EmptyCollection CategorySet := ⟨ByCategory.replicate false⟩

instance : Membership Category CategorySet := ⟨fun set category => set.get category = true⟩

instance (category : Category) (set : CategorySet) : Decidable (category ∈ set) :=
  inferInstanceAs (Decidable (set.get category = true))

instance : Insert Category CategorySet := ⟨fun category set => set.set category true⟩

instance : Singleton Category CategorySet := ⟨fun category => insert category ∅⟩

instance : Union CategorySet :=
  ⟨fun left right =>
    { noun := left.noun || right.noun
      monad := left.monad || right.monad
      dyad := left.dyad || right.dyad
      conjunction := left.conjunction || right.conjunction
      adverb := left.adverb || right.adverb }⟩

/-- The members in the order of `Category.all`. -/
def toList (set : CategorySet) : List Category :=
  Category.all.filter set.get

/-- The set of the listed categories, repeated ones counted once. -/
def ofList (categories : List Category) : CategorySet :=
  categories.foldl (fun set category => insert category set) ∅

/-- The number of members. -/
def size (set : CategorySet) : Nat := set.toList.length

/-- The members in braces, as messages show them. -/
def render (set : CategorySet) : String :=
  "\x7b" ++ ", ".intercalate (set.toList.map Category.name) ++ "\x7d"

@[simp]
theorem mem_insert (category added : Category) (set : CategorySet) :
    category ∈ (insert added set : CategorySet) ↔ category = added ∨ category ∈ set := by
  cases added <;> cases category <;> simp [Membership.mem, Insert.insert, ByCategory.set,
    ByCategory.get]

@[simp]
theorem mem_union (category : Category) (left right : CategorySet) :
    category ∈ (left ∪ right : CategorySet) ↔ category ∈ left ∨ category ∈ right := by
  cases category <;> simp [Membership.mem, Union.union, ByCategory.get]

@[simp]
theorem mem_toList (category : Category) (set : CategorySet) :
    category ∈ set.toList ↔ category ∈ set := by
  simp only [toList, List.mem_filter, Category.mem_all, true_and]
  rfl

end CategorySet

end Tacit
