import Tacit.Keyword
import Tacit.Rule

/-!
# Settings and vocabularies

What can be set from outside: limits and a grammar in `Settings`, and the keywords in a
`Vocabulary`.  Both are plain data; `Settings.rules` and `Vocabulary.build` check them.
-/

namespace Tacit

/-- A grammar rule with its pattern in words. -/
structure RuleEntry where
  /-- The names of the pattern. -/
  pattern : String
  /-- The categories of the group. -/
  result : CategorySet
  deriving DecidableEq

/-- A rule with its pattern in words. -/
def RuleEntry.ofRule (rule : Rule) : RuleEntry := ⟨rule.patternText, rule.result⟩

/-- Limits and grammar. -/
structure Settings where
  /-- The greatest number of tokens in a source. -/
  maxTokens : UInt64 := 1000
  /-- The rules, in the order in which they are tried. -/
  grammar : List RuleEntry := Rule.standard.map .ofRule
  /-- The greatest depth of a formula that is computed. -/
  maxDepth : UInt64 := 256
  /-- Whether a value that is not finite is refused. -/
  rejectNonFinite : Bool := true
  deriving DecidableEq

/-- The rules of a grammar, or the first that is none. -/
def Settings.rules (settings : Settings) : Except TableError (List Rule) :=
  settings.grammar.mapM fun entry => Rule.parse entry.pattern entry.result

/-- The limits of a run. -/
def Settings.limits (settings : Settings) : Limits :=
  ⟨settings.maxDepth, settings.rejectNonFinite⟩

/-- One use of a keyword, as data. -/
structure VariantEntry where
  /-- The name of this use. -/
  name : String
  /-- Other names of this use. -/
  aliases : List String := []
  /-- Its category. -/
  category : Category
  /-- The builtin it is bound to. -/
  builtin : Option String := none
  deriving DecidableEq

/-- The variant that an entry describes.  Its builtin has to exist and to be of its category. -/
def VariantEntry.build (entry : VariantEntry) : Except TableError Variant :=
  match entry.builtin with
  | none => .ok ⟨entry.name, .ofNames entry.aliases, .declared entry.category⟩
  | some name =>
      match Builtin.ofName? name with
      | none => .error (.unknownBuiltin name)
      | some builtin =>
          if builtin.category = entry.category then
            .ok ⟨entry.name, .ofNames entry.aliases, .implemented builtin⟩
          else .error (.builtinCategoryMismatch name builtin.category entry.category)

/-- Spellings with their uses, as data. -/
abbrev Vocabulary := Catalog (List VariantEntry)

/-- The table that a vocabulary describes.  All variants are built before any spelling is
checked, both in the order of spellings. -/
def Vocabulary.build (vocabulary : Vocabulary) : Except TableError KeywordTable := do
  let entries ← vocabulary.entries.mapM fun entry => do
    let variants ← entry.2.mapM VariantEntry.build
    return (entry.1, variants)
  KeywordTable.ofList entries

end Tacit
