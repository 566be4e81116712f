import Tacit.TableError
import Tacit.Text.Blank

/-!
# Grammar rules

A rule says which categories, one after another, make a group, and which categories the group then
has.  The rules of a grammar are tried in order.
-/

namespace Tacit

/-- Neighbours that fold into one group. -/
structure Rule where
  /-- The categories that the neighbours offer, in order. -/
  pattern : List Category
  /-- The categories of their group. -/
  result : CategorySet
  deriving DecidableEq

namespace Rule

/-- Read a rule from the names of its pattern.  A pattern has at least two categories and a result
is not empty. -/
def parse (pattern : String) (result : CategorySet) : Except TableError Rule :=
  match (Text.words pattern).mapM Category.ofName? with
  | none => .error (.invalidRule pattern)
  | some categories =>
      if categories.length < 2 || result = ∅ then .error (.invalidRule pattern)
      else .ok ⟨categories, result⟩

/-- The names of a pattern with one space between them. -/
def patternText (rule : Rule) : String := " ".intercalate (rule.pattern.map Category.name)

/-- The text of a rule. -/
def render (rule : Rule) : String := rule.patternText ++ " -> " ++ rule.result.render

/-- The standard grammar. -/
def standard : List Rule :=
  [⟨[.monad, .dyad, .monad], {.monad}⟩,
    ⟨[.noun, .dyad, .noun], {.noun}⟩,
    ⟨[.noun, .dyad, .monad], {.monad}⟩,
    ⟨[.monad, .dyad, .noun], {.monad}⟩,
    ⟨[.monad, .noun], {.noun}⟩,
    ⟨[.monad, .adverb], {.monad, .dyad}⟩,
    ⟨[.dyad, .adverb], {.monad, .dyad}⟩,
    ⟨[.dyad, .monad], {.monad, .dyad}⟩,
    ⟨[.noun, .conjunction, .monad], {.noun}⟩,
    ⟨[.monad, .conjunction, .monad], {.monad}⟩]

end Rule

end Tacit
