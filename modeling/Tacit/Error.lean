import Tacit.Node
import Tacit.Symbol
import Tacit.TableError

/-!
# Errors

Every failure that a user can meet, under one type.
-/

namespace Tacit

/-- Why a request fails. -/
inductive Error where
  | lex (error : LexError)
  | group (error : GroupError)
  | eval (error : EvalError)
  | table (error : TableError)
  | execution (error : ExecutionError)
  /-- Settings or a vocabulary could not be read. -/
  | config (reason : String)
  /-- A fault outside the language. -/
  | internal (reason : String)
  deriving DecidableEq

/-- The text of an error. -/
def Error.message : Error → String
  | lex error => "Lex error: " ++ error.message
  | group error => "Group error: " ++ error.message
  | eval error => "Eval error: " ++ error.message
  | table error => "Table error: " ++ error.message
  | execution error => "Execution error: " ++ error.message
  | config reason => "Config error: " ++ reason
  | internal reason => "Internal error: " ++ reason

end Tacit
