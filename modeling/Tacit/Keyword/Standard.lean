import Tacit.Keyword

/-!
# The standard vocabulary

Fifteen spellings.  The arithmetic ones are implemented; those on lists are declared only.
-/

namespace Tacit

namespace KeywordTable

/-- The spellings of the standard vocabulary with their variants. -/
def standardEntries : List (String × List Variant) :=
  [("#", [.implemented .identity ["same"]]),
    (" ", [.implemented .pipeline []]),
    ("*", [.implemented (.binary .multiply) ["multiply", "times"]]),
    ("<.", [.implemented (.unary .floor) [], .implemented (.binary .min) ["min"]]),
    (">.", [.implemented (.unary .ceiling) [], .implemented (.binary .max) ["max"]]),
    ("+", [.implemented (.binary .add) ["add", "plus"]]),
    ("/", [.implemented (.binary .divide) ["divide"],
      .implemented (.unary .reciprocal) ["inverse"]]),
    ("-", [.implemented (.unary .negate) [],
      .implemented (.binary .subtract) ["subtract", "minus"]]),
    ("@", [.declared "insert" .adverb ["reduce", "together"]]),
    ("~", [.implemented .reflex ["self"]]),
    ("[", [.declared "first" .monad ["head"], .declared "take" .dyad []]),
    ("]", [.declared "last" .monad [], .declared "take_last" .dyad []]),
    ("]:", [.declared "tail" .monad [], .declared "drop" .dyad []]),
    ("[.", [.declared "nth" .dyad []]),
    ("+:", [.declared "integers" .monad [], .declared "range" .dyad []])]

/-- A property of all standard entries holds throughout the catalog made of them. -/
theorem forall_standard {property : String × List Variant → Prop}
    (holds : ∀ entry ∈ standardEntries, property entry) :
    ∀ entry ∈ (Catalog.ofList standardEntries).entries, property entry := fun entry member =>
  (Catalog.mem_of_mem_insertMany member).elim (fun none_there => nomatch none_there) (holds entry)

/-- The standard vocabulary. -/
def standard : KeywordTable where
  entries := .ofList standardEntries
  spelling_ne := forall_standard (by decide)
  variants_ne := forall_standard (by simp [standardEntries])
  distinct := forall_standard (by decide)

end KeywordTable

end Tacit
