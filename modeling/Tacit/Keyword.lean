import Tacit.Catalog
import Tacit.Symbol
import Tacit.TableError

/-!
# Keywords

A keyword is a spelling with one or more variants, at most one in each category.  A variant is
either bound to a builtin or only declared.  A `KeywordTable` holds the keywords of a vocabulary
and answers what a spelling can be and what it means.

Tables are those that are read from table files, and the standard one.  Operators that a caller
writes as code are left out: a variant with an operation of its own in the stead of a builtin, an
implemented noun, and a meaning that looks up other names when it is applied.
-/

namespace Tacit

/-- The operators that a variant can be bound to. -/
inductive Builtin where
  | identity
  | pipeline
  | reflex
  | unary (op : UnaryOp)
  | binary (op : BinaryOp)
  deriving DecidableEq

namespace Builtin

/-- All builtins. -/
def all : List Builtin :=
  [identity, pipeline, reflex] ++ UnaryOp.all.map unary ++ BinaryOp.all.map binary

/-- The name under which tables bind a builtin. -/
def name : Builtin → String
  | identity => "identity"
  | pipeline => "pipeline"
  | reflex => "reflex"
  | unary op => op.name
  | binary .add => "sum"
  | binary .subtract => "difference"
  | binary .multiply => "product"
  | binary .divide => "quotient"
  | binary .min => "lesser_of"
  | binary .max => "larger_of"

/-- The builtin with exactly this name. -/
def ofName? (text : String) : Option Builtin := all.find? fun builtin => builtin.name = text

/-- The meaning of a builtin. -/
def symbol : Builtin → Symbol
  | identity => .monad .identity
  | pipeline => .conjunction .pipeline
  | reflex => .adverb .reflex
  | unary op => .monad (.unary op)
  | binary op => .dyad op

/-- The category of a builtin. -/
def category (builtin : Builtin) : Category := builtin.symbol.category

@[simp]
theorem ofName?_name (builtin : Builtin) : ofName? builtin.name = some builtin := by
  cases builtin with
  | identity | pipeline | reflex => rfl
  | unary op | binary op => cases op <;> rfl

end Builtin

/-- What a variant stands for. -/
inductive Meaning where
  /-- A builtin, in the category of the builtin. -/
  | implemented (builtin : Builtin)
  /-- A meaning that has a category and no implementation. -/
  | declared (category : Category)
  deriving DecidableEq

/-- One use of a keyword. -/
structure Variant where
  /-- The name of this use. -/
  name : String
  /-- Other names of this use. -/
  aliases : Catalog Unit := ∅
  /-- What it stands for. -/
  meaning : Meaning

namespace Variant

/-- A variant bound to a builtin, with the builtin's name. -/
def implemented (builtin : Builtin) (aliases : List String) : Variant :=
  ⟨builtin.name, .ofNames aliases, .implemented builtin⟩

/-- A variant without implementation. -/
def declared (name : String) (category : Category) (aliases : List String) : Variant :=
  ⟨name, .ofNames aliases, .declared category⟩

/-- The category of a variant. -/
def category (variant : Variant) : Category :=
  match variant.meaning with
  | .implemented builtin => builtin.category
  | .declared category => category

/-- Whether a variant is bound to a builtin. -/
def isImplemented (variant : Variant) : Bool :=
  match variant.meaning with
  | .implemented _ => true
  | .declared _ => false

/-- Whether a variant has this name or alias. -/
def isCalled (variant : Variant) (name : String) : Bool :=
  variant.name = name || variant.aliases.contains name

/-- Add what a variant stands for to a set of meanings. -/
def contribute (variant : Variant) (set : SymbolSet) : SymbolSet :=
  match variant.meaning with
  | .implemented builtin => set.insert builtin.symbol
  | .declared category => set.declare category variant.name

/-- How a variant is shown. -/
def describe (variant : Variant) : String :=
  "KeywordVariant \x7b name: " ++ Text.quote variant.name
    ++ ", aliases: \x7b" ++ ", ".intercalate (variant.aliases.names.map Text.quote)
    ++ "\x7d, category: " ++ variant.category.title
    ++ ", implemented: " ++ (if variant.isImplemented then "true" else "false") ++ " \x7d"

end Variant

/-- The keywords of a vocabulary. -/
structure KeywordTable where
  /-- The variants of each spelling. -/
  entries : Catalog (List Variant)
  /-- No spelling is empty. -/
  spelling_ne : ∀ entry ∈ entries.entries, entry.1 ≠ ""
  /-- Every spelling has a variant. -/
  variants_ne : ∀ entry ∈ entries.entries, entry.2 ≠ []
  /-- A spelling has one variant in a category. -/
  distinct : ∀ entry ∈ entries.entries, (entry.2.map Variant.category).Nodup

namespace KeywordTable

/-- The table without keywords. -/
def empty : KeywordTable where
  entries := ∅
  spelling_ne _ member := nomatch member
  variants_ne _ member := nomatch member
  distinct _ member := nomatch member

/-- The category of the first variant that repeats the category of an earlier one. -/
def firstRepeated? : List Variant → Option Category :=
  go []
where
  /-- As `firstRepeated?`, after variants in the categories `seen`. -/
  go (seen : List Category) : List Variant → Option Category
    | [] => none
    | variant :: rest =>
        if variant.category ∈ seen then some variant.category
        else go (variant.category :: seen) rest

theorem nodup_of_go_eq_none {seen : List Category} {variants : List Variant}
    (none_repeated : firstRepeated?.go seen variants = none) :
    (variants.map Variant.category).Nodup ∧
      ∀ category ∈ variants.map Variant.category, category ∉ seen := by
  induction variants generalizing seen with
  | nil => simp
  | cons variant rest ih =>
      unfold firstRepeated?.go at none_repeated
      split at none_repeated
      · contradiction
      next unseen =>
        obtain ⟨restDistinct, restUnseen⟩ := ih none_repeated
        refine ⟨List.nodup_cons.mpr ⟨fun member => restUnseen _ member List.mem_cons_self,
          restDistinct⟩, fun category member => ?_⟩
        rcases List.mem_cons.mp member with rfl | inRest
        · exact unseen
        · exact fun inSeen => restUnseen category inRest (List.mem_cons_of_mem _ inSeen)

theorem nodup_of_firstRepeated?_eq_none {variants : List Variant}
    (none_repeated : firstRepeated? variants = none) :
    (variants.map Variant.category).Nodup :=
  (nodup_of_go_eq_none none_repeated).1

/-- Enter a spelling with its variants, in the stead of those it had. -/
def insert (table : KeywordTable) (spelling : String) (variants : List Variant)
    (spelled : spelling ≠ "") (present : variants ≠ [])
    (once : (variants.map Variant.category).Nodup) : KeywordTable where
  entries := table.entries.insert spelling variants
  spelling_ne entry member := by
    rcases Catalog.mem_place member with rfl | old
    · exact spelled
    · exact table.spelling_ne entry old
  variants_ne entry member := by
    rcases Catalog.mem_place member with rfl | old
    · exact present
    · exact table.variants_ne entry old
  distinct entry member := by
    rcases Catalog.mem_place member with rfl | old
    · exact once
    · exact table.distinct entry old

/-- Enter a spelling if it is not empty and its variants are at least one and in distinct
categories. -/
def insert? (table : KeywordTable) (spelling : String) (variants : List Variant) :
    Except TableError KeywordTable :=
  if spelled : spelling = "" then .error .emptySpelling
  else if present : variants = [] then .error (.noVariants spelling)
  else match once : firstRepeated? variants with
    | some category => .error (.duplicateCategory spelling category)
    | none => .ok (table.insert spelling variants spelled present
        (nodup_of_firstRepeated?_eq_none once))

/-- The table of the listed spellings.  The first spelling that cannot be entered refuses it. -/
def ofList (entries : List (String × List Variant)) : Except TableError KeywordTable :=
  entries.foldlM (fun table entry => table.insert? entry.1 entry.2) empty

/-- The variants of a spelling, none if it is no keyword. -/
def variants (table : KeywordTable) (spelling : String) : List Variant :=
  (table.entries.get? spelling).getD []

/-- The spellings in order. -/
def spellings (table : KeywordTable) : List String := table.entries.names

/-- The number of spellings. -/
def size (table : KeywordTable) : Nat := table.entries.size

/-- What a spelling can be used as. -/
def categories (table : KeywordTable) (spelling : String) : CategorySet :=
  .ofList ((table.variants spelling).map Variant.category)

/-- What a spelling means. -/
def symbols (table : KeywordTable) (spelling : String) : SymbolSet :=
  (table.variants spelling).foldl (fun set variant => variant.contribute set) ∅

/-- The first variant with a name or alias, by spelling and then by the order of variants. -/
def findByName? (table : KeywordTable) (name : String) : Option (String × Variant) :=
  table.entries.entries.findSome? fun entry =>
    (entry.2.find? fun variant => variant.isCalled name).map fun variant => (entry.1, variant)

end KeywordTable

end Tacit
