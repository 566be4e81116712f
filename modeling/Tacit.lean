import Tacit.Main
import Tacit.Stored.Token
import Tacit.Stored.Graph
import Tacit.Proofs.Resolver
import Tacit.Proofs.Expression
import Tacit.Proofs.Evaluation
import Tacit.Proofs.Session
import Tacit.Proofs.Interpretation
import Tacit.Proofs.Keyword
import Tacit.Proofs.Reachability
import Tacit.Proofs.Unimplemented
import Tacit.Proofs.Lexer
import Tacit.Proofs.Reduction
import Tacit.Proofs.Grouping
import Tacit.Proofs.Language
import Tacit.Proofs.Fitting
import Tacit.Proofs.Isolation
import Tacit.Proofs.Soundness
import Tacit.Proofs.Trie
import Tacit.Proofs.Munch
import Tacit.Proofs.Reparsing
import Tacit.Proofs.Failure
import Tacit.Proofs.Faithfulness
import Tacit.Proofs.Train
import Tacit.Proofs.Strictness
import Tacit.Proofs.Accounting
import Tacit.Proofs.Binary64
import Tacit.Proofs.Numeral
import Tacit.Proofs.Printing
import Tacit.Proofs.Unmixed
import Tacit.Proofs.Cycle
import Tacit.Proofs.Inlining
import Tacit.Proofs.GrammarExtension
import Tacit.Proofs.Composition
import Tacit.Proofs.Json
import Tacit.Proofs.JsonParts
import Tacit.Proofs.StoredSettings
import Tacit.Proofs.StoredGraph
import Tacit.Proofs.Memory
import Tacit.Proofs.Seeking
import Tacit.Proofs.Unbounded
import Tacit.Proofs.Termination
import Tacit.Proofs.NormalForm
import Tacit.Proofs.Outline
import Tacit.Proofs.Blame
import Tacit.Proofs.WorkInProgress
import Tacit.Proofs.DeclaredOperators
import Tacit.Proofs.TokenLimit
import Tacit.Proofs.Pipeline
import Tacit.Proofs.Checking
import Tacit.Proofs.Vocabulary
import Tacit.Proofs.RuleText
import Tacit.Proofs.Conversion
import Tacit.Proofs.FormulaText
