import Tacit.Category

/-!
# Refused vocabularies and grammars

The reasons why a table of keywords or a list of grammar rules is refused, with their texts.
-/

namespace Tacit

/-- Why a table of keywords or a grammar is refused. -/
inductive TableError where
  /-- A keyword is spelled by the empty text. -/
  | emptySpelling
  /-- A spelling has no meaning at all. -/
  | noVariants (spelling : String)
  /-- A spelling has two meanings in one category. -/
  | duplicateCategory (spelling : String) (category : Category)
  /-- No builtin has this name. -/
  | unknownBuiltin (name : String)
  /-- A builtin is declared in a category that is not its own. -/
  | builtinCategoryMismatch (name : String) (actual declared : Category)
  /-- A text is no pattern of a grammar rule, or its rule has no result. -/
  | invalidRule (pattern : String)
  deriving DecidableEq

/-- The text of an error. -/
def TableError.message : TableError → String
  | emptySpelling => "Keyword spelling must not be empty"
  | noVariants spelling => "Keyword '" ++ spelling ++ "' has no variants"
  | duplicateCategory spelling category =>
      "Keyword '" ++ spelling ++ "' declares " ++ category.name ++ " more than once"
  | unknownBuiltin name => "Unknown builtin: " ++ name
  | builtinCategoryMismatch name actual declared =>
      "Builtin '" ++ name ++ "' is a " ++ actual.name ++ ", declared as " ++ declared.name
  | invalidRule pattern => "Invalid grammar rule: " ++ pattern

end Tacit
