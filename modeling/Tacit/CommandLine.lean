import Tacit.Keyword.Standard
import Tacit.Language
import Tacit.Stored.Settings

/-!
# The command line

A request names sources as `NAME=SOURCE` and may bring settings and a vocabulary of its own.  The
report lists the value of every source, or its tokens, in the order of names.
-/

namespace Tacit.CommandLine

/-- A file that a request may bring. -/
inductive Document where
  /-- None is asked for. -/
  | standard
  /-- One is asked for and cannot be read. -/
  | unreadable
  /-- One is there, with this content. -/
  | text (content : String)

/-- What the command line asks for. -/
structure Request where
  /-- The settings. -/
  settings : Document := .standard
  /-- The vocabulary. -/
  vocabulary : Document := .standard
  /-- Whether tokens are listed instead of values. -/
  tokens : Bool := false
  /-- Whether formulas and failures are listed too. -/
  verbose : Bool := false
  /-- The sources. -/
  arguments : List String

/-- What the command line answers. -/
structure Report where
  /-- The exit code: 0, or 1 for a failure, or 2 for arguments that are no sources. -/
  exitCode : UInt32 := 0
  /-- The lines of the answer. -/
  lines : List String := []
  /-- What went wrong. -/
  complaint : String := ""

/-- The name and the text of a source, divided by the first equals sign. -/
def source (argument : String) : Except String (String × String) :=
  let chars := argument.toList
  let name := chars.takeWhile (· ≠ '=')
  match chars.dropWhile (· ≠ '=') with
  | [] => .error ("expected NAME=SOURCE, got '" ++ argument ++ "'")
  | _ :: text =>
      if name.isEmpty then .error ("missing name in '" ++ argument ++ "'")
      else .ok (String.ofList name, String.ofList text)

/-- The settings of a document. -/
def settingsOf : Document → Except Error Settings
  | .standard => .ok {}
  | .unreadable => .error (.config "settings cannot be opened")
  | .text content =>
      match Settings.ofText? content with
      | some settings => .ok settings
      | none => .error (.config "settings cannot be read")

/-- The keywords of a document. -/
def tableOf : Document → Except Error KeywordTable
  | .standard => .ok .standard
  | .unreadable => .error (.config "vocabulary cannot be opened")
  | .text content =>
      match Vocabulary.ofText? content with
      | some vocabulary => vocabulary.build.mapError .table
      | none => .error (.config "vocabulary cannot be read")

/-- The language of a request. -/
def language (request : Request) : Except Error Language := do
  let settings ← settingsOf request.settings
  let table ← tableOf request.vocabulary
  (Language.ofSettings settings table).mapError .table

/-- The line of tokens of a source. -/
def tokenLine (language : Language) (name text : String) : Except LexError String := do
  let tokens ← language.lexer.tokens text
  let printed ← tokens.mapM Token.print
  return name ++ ": " ++ " | ".intercalate printed

/-- The report of a failure after some lines. -/
def failure (lines : List String) (error : Error) : Report :=
  ⟨1, lines, "Error: " ++ error.message⟩

/-- The lines of tokens of all sources, up to the first that has none. -/
def tokenReport (language : Language) : List (String × String) → Report
  | [] => {}
  | (name, text) :: rest =>
      match tokenLine language name text with
      | .error error => failure [] (.lex error)
      | .ok line =>
          let report := tokenReport language rest
          { report with lines := line :: report.lines }

/-- The lines on one source. -/
def valueLines (verbose : Bool) (interpretation : Interpretation) (name : String) :
    List String :=
  let value := (interpretation.value? name).map Numeral.text
  let details := if verbose then
      [interpretation.diagnostics.get? name,
        (interpretation.failures.get? name).map Error.message].filterMap id
    else []
  (name ++ " = " ++ value.getD "absent") :: details.map ("  " ++ ·)

/-- The report on sources that are all well formed. -/
def answer (request : Request) (sources : Catalog String) : Report :=
  match language request with
  | .error error => failure [] error
  | .ok language =>
      if request.tokens then tokenReport language sources.entries
      else
        let interpretation := language.interpretSources sources
        { lines := sources.names.flatMap (valueLines request.verbose interpretation) }

/-- The report on a request.  At least one source is needed, and the first argument that is none
refuses the request. -/
def run (request : Request) : Report :=
  match request.arguments.mapM source with
  | .error complaint => { exitCode := 2, complaint := complaint }
  | .ok [] => { exitCode := 2 }
  | .ok sources => answer request (.ofList sources)

end Tacit.CommandLine
