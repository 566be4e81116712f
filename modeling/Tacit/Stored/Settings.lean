import Tacit.Settings
import Tacit.Stored.Category

/-!
# Stored settings and vocabularies

Settings are stored as a record in which every field may be missing, a vocabulary as an object from
spellings to lists of variants.
-/

namespace Tacit

/-- The value of a field that may be missing. -/
def Json.orDefault? {α : Type} (default : α) (read? : Json → Option α) : Option Json → Option α
  | none => some default
  | some json => read? json

namespace RuleEntry

/-- The stored form of a rule. -/
def toJson (entry : RuleEntry) : Json :=
  .ofFields [("pattern", .ofString entry.pattern), ("result", entry.result.toJson)]

/-- The rule that a value stores. -/
def ofJson? (json : Json) : Option RuleEntry := do
  match ← json.record? ["pattern", "result"] with
  | [some pattern, some result] =>
      let pattern ← pattern.toText?
      let result ← CategorySet.ofJson? Json.isNull result
      return ⟨pattern, result⟩
  | _ => none

end RuleEntry

namespace Settings

/-- The stored form of settings. -/
def toJson (settings : Settings) : Json :=
  .ofFields [("max_tokens", .ofNat settings.maxTokens.toNat),
    ("grammar", .array (settings.grammar.map RuleEntry.toJson)),
    ("max_expression_depth", .ofNat settings.maxDepth.toNat),
    ("reject_non_finite", .bool settings.rejectNonFinite)]

/-- The settings that a value stores. -/
def ofJson? (json : Json) : Option Settings := do
  let names := ["max_tokens", "grammar", "max_expression_depth", "reject_non_finite"]
  match ← json.record? names with
  | [maxTokens, grammar, maxDepth, rejectNonFinite] =>
      let standard : Settings := {}
      let maxTokens ← Json.orDefault? standard.maxTokens Json.toUInt64? maxTokens
      let grammar ← Json.orDefault? standard.grammar (Json.toList? RuleEntry.ofJson?) grammar
      let maxDepth ← Json.orDefault? standard.maxDepth Json.toUInt64? maxDepth
      let rejectNonFinite ←
        Json.orDefault? standard.rejectNonFinite Json.toBool? rejectNonFinite
      return ⟨maxTokens, grammar, maxDepth, rejectNonFinite⟩
  | _ => none

/-- The settings that a text stores. -/
def ofText? (text : String) : Option Settings := Json.parse? text >>= ofJson?

end Settings

namespace VariantEntry

/-- The stored form of a variant; a builtin that is not there is left out. -/
def toJson (entry : VariantEntry) : Json :=
  .ofFields ([("name", .ofString entry.name),
    ("aliases", .array (entry.aliases.map Json.ofString)),
    ("category", entry.category.toJson)]
      ++ (entry.builtin.map fun builtin => ("builtin", Json.ofString builtin)).toList)

/-- The builtin of a variant, if it has one. -/
def builtin? : Option Json → Option (Option String)
  | none | some .null => some none
  | some json => json.toText?.map some

/-- The variant that a value stores. -/
def ofJson? (json : Json) : Option VariantEntry := do
  match ← json.record? ["name", "aliases", "category", "builtin"] with
  | [some name, aliases, some category, builtin] =>
      let name ← name.toText?
      let aliases ← Json.orDefault? [] (Json.toList? Json.toText?) aliases
      let category ← Category.ofJson? Json.isNull category
      let builtin ← builtin? builtin
      return ⟨name, aliases, category, builtin⟩
  | _ => none

end VariantEntry

namespace Vocabulary

/-- The stored form of a vocabulary. -/
def toJson (vocabulary : Vocabulary) : Json :=
  .ofFields (vocabulary.entries.map fun entry =>
    (entry.1, .array (entry.2.map VariantEntry.toJson)))

/-- The vocabulary that a value stores.  The last of several entries with one spelling stays. -/
def ofJson? (json : Json) : Option Vocabulary :=
  (json.toEntries? (Json.toList? VariantEntry.ofJson?)).map .ofList

/-- The vocabulary that a text stores. -/
def ofText? (text : String) : Option Vocabulary := Json.parse? text >>= ofJson?

end Vocabulary

end Tacit
