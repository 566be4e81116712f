/-!
# Tries of spellings

A trie keeps spellings along the paths of their characters.  Walking down along an input finds the
longest spelling that the input starts with, and counts its bytes.
-/

namespace Tacit

/-- Spellings that share their first characters share a path. -/
inductive Trie where
  /-- A place in the trie: the spelling that ends here, and one branch for each next character. -/
  | node (spelling? : Option String) (branches : List (Char × Trie))

namespace Trie

/-- The trie without spellings. -/
def empty : Trie := node none []

/-- The spelling that ends at the root. -/
def spelling? : Trie → Option String
  | node spelling? _ => spelling?

/-- The place one character further. -/
def branch? : Trie → Char → Option Trie
  | node _ branches, char => branches.lookup char

/-- Put a spelling at the end of a path. -/
def insertAt (spelling : String) : List Char → Trie → Trie
  | [], node _ branches => node (some spelling) branches
  | char :: path, node here branches =>
      let below := insertAt spelling path ((branches.lookup char).getD empty)
      node here ((char, below) :: branches.filter fun branch => branch.1 ≠ char)

/-- Add a spelling along its own characters. -/
def insert (trie : Trie) (spelling : String) : Trie := insertAt spelling spelling.toList trie

/-- The trie of the listed spellings. -/
def ofList (spellings : List String) : Trie := spellings.foldl insert empty

/-- The spelling that ends furthest down the path of an input, below the root, with the number of
bytes on the way to it. -/
def longest? : Trie → List Char → Option (String × Nat)
  | _, [] => none
  | trie, char :: input =>
      match trie.branch? char with
      | none => none
      | some below =>
          let further := below.longest? input <|> below.spelling?.map fun spelling => (spelling, 0)
          further.map fun found => (found.1, char.utf8Size + found.2)

end Trie

end Tacit
