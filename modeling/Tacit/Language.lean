import Tacit.Grouping
import Tacit.Interpretation
import Tacit.Keyword.Standard
import Tacit.Settings

/-!
# Languages

A language is a vocabulary with a grammar and a way to compute formulas.  It takes one source text
to an expression, several named source texts to a graph, and either to values.
-/

namespace Tacit

/-- A vocabulary with a grammar and a way to compute formulas. -/
structure Language where
  /-- The vocabulary, ready for reading sources. -/
  lexer : Lexer
  /-- The grammar. -/
  rules : List Rule
  /-- How formulas are turned into values. -/
  execute : Execution

/-- A graph in the making. -/
structure Draft (α : Type) where
  /-- What was made of each source. -/
  made : Catalog α := ∅
  /-- The sources that failed. -/
  failed : Interpretation := ∅

/-- Note what was made of a source. -/
def Draft.record {α : Type} (draft : Draft α) (id : String) : Except Error α → Draft α
  | .ok made => { draft with made := draft.made.insert id made }
  | .error error => { draft with failed := draft.failed.recordFailure id error }

namespace Language

/-- The language of a vocabulary with these settings. -/
def ofSettings (settings : Settings) (table : KeywordTable) : Except TableError Language := do
  let rules ← settings.rules
  return {
    lexer := { table := table, limit := settings.maxTokens }
    rules := rules
    execute := Formula.run settings.limits }

/-- The standard vocabulary with the standard grammar and the standard limits. -/
def standard : Language := ⟨{ table := .standard }, Rule.standard, Formula.run {}⟩

/-- Grouping over the expressions of a graph. -/
def grouper (language : Language) (graph : Graph) : Grouper :=
  ⟨language.lexer, language.rules, graph⟩

/-- Evaluation over the expressions of a graph. -/
def evaluator (language : Language) (graph : Graph) : Evaluator := ⟨language.lexer.table, graph⟩

/-- What remains of a sequence over a graph. -/
def group (language : Language) (graph : Graph) (nodes : List Node) :
    Except GroupError (List Node) :=
  ((language.grouper graph).run ((language.grouper graph).reduction nodes) ∅).1

/-- The meaning of an expression over a graph. -/
def evaluate (language : Language) (graph : Graph) (expr : Expr) : Except EvalError SymbolSet :=
  ((language.evaluator graph).run ((language.evaluator graph).meaning expr) ∅).1

/-- The tokens of a source, with known names turned into references. -/
def linkedTokens (language : Language) (isKnown : String → Bool) (source : String) :
    Except Error (List Token) :=
  match language.lexer.tokens source with
  | .ok tokens => .ok (tokens.map (Token.link isKnown))
  | .error error => .error (.lex error)

/-- The expression of a node. -/
def expression (node : Node) : Except Error Expr := (Expr.ofNode node).mapError .group

/-- The expression of a source, over the expressions of a graph. -/
def parse (language : Language) (graph : Graph) (source : String) : Except Error Expr := do
  let tokens ← language.linkedTokens graph.contains source
  let grouper := language.grouper graph
  let node ← (grouper.run (grouper.reductionToOne (tokens.map .token)) ∅).1.mapError .group
  expression node

/-- What becomes of every name of a graph. -/
def interpret (language : Language) (graph : Graph) : Interpretation :=
  (language.evaluator graph).interpret language.execute

/-- The parts of a source as expressions, before grouping. -/
def stage (language : Language) (isKnown : String → Bool) (source : String) :
    Except Error (List Expr) := do
  let tokens ← language.linkedTokens isKnown source
  tokens.mapM fun token => expression (.token token)

/-- The parts of all sources, before grouping.  Names of sources are known in all of them. -/
def stageAll (language : Language) (sources : Catalog String) : Draft (List Expr) :=
  sources.entries.foldl
    (fun draft source => draft.record source.1 (language.stage sources.contains source.2)) {}

/-- Group the parts of one source, and remember the categories found on the way. -/
def groupOne (grouper : Grouper)
    (state : Draft Expr × Memory GroupError CategorySet) (source : String × List Expr) :
    Draft Expr × Memory GroupError CategorySet :=
  let (node, memory) := grouper.run (grouper.reductionToOne (Expr.toNodes source.2)) state.2
  (state.1.record source.1 (node.mapError .group >>= expression), memory)

/-- The sources that could be read, each with its parts side by side.  Grouping looks up in it what
the names in a source can be used as. -/
def stagedGraph (language : Language) (sources : Catalog String) : Graph :=
  (language.stageAll sources).made.map fun children => .group children none

/-- The graph of named sources, with an account of those that failed. -/
def buildGraph (language : Language) (sources : Catalog String) : Graph × Interpretation :=
  let staged := language.stageAll sources
  let grouper := language.grouper (language.stagedGraph sources)
  let grouped := (staged.made.entries.foldl (groupOne grouper) ({ failed := staged.failed }, ∅)).1
  (grouped.made, grouped.failed)

/-- What becomes of every source. -/
def interpretSources (language : Language) (sources : Catalog String) : Interpretation :=
  let (graph, failed) := language.buildGraph sources
  (language.interpret graph).merge failed

end Language

end Tacit
