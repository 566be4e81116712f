import Tacit.CommandLine

/-!
# The program

`tacit [--config FILE] [--table FILE] [--tokens] [--verbose] NAME=SOURCE...`
-/

namespace Tacit.CommandLine

/-- What the words of a command line ask for, before files are read. -/
structure Options where
  /-- The file of the settings. -/
  settings : Option String := none
  /-- The file of the vocabulary. -/
  vocabulary : Option String := none
  /-- Whether tokens are listed instead of values. -/
  tokens : Bool := false
  /-- Whether formulas and failures are listed too. -/
  verbose : Bool := false
  /-- The other words, in order. -/
  arguments : List String := []

/-- Take in the words of a command line.  After `--` every word is an argument. -/
def Options.ofWords (options : Options) : List String → Except String Options
  | [] => .ok options
  | "--" :: words => .ok { options with arguments := options.arguments ++ words }
  | "--tokens" :: words => { options with tokens := true }.ofWords words
  | "--verbose" :: words | "-v" :: words => { options with verbose := true }.ofWords words
  | "--config" :: file :: words | "-c" :: file :: words =>
      { options with settings := some file }.ofWords words
  | "--table" :: file :: words | "-t" :: file :: words =>
      { options with vocabulary := some file }.ofWords words
  | word :: words =>
      if word.startsWith "-" then .error ("unexpected argument '" ++ word ++ "'")
      else { options with arguments := options.arguments ++ [word] }.ofWords words

/-- Read a file that is asked for. -/
def Document.read (file? : Option String) : IO Document :=
  match file? with
  | none => return .standard
  | some file => do
      try return .text (← IO.FS.readFile file)
      catch _ => return .unreadable

/-- The request of a command line. -/
def Options.request (options : Options) : IO Request := do
  let settings ← Document.read options.settings
  let vocabulary ← Document.read options.vocabulary
  return ⟨settings, vocabulary, options.tokens, options.verbose, options.arguments⟩

/-- Print a report. -/
def Report.print (report : Report) : IO UInt32 := do
  for line in report.lines do
    IO.println line
  if report.exitCode ≠ 0 then
    IO.eprintln report.complaint
  return report.exitCode

end Tacit.CommandLine

/-- Answer a command line. -/
def main (words : List String) : IO UInt32 := do
  match Tacit.CommandLine.Options.ofWords {} words with
  | .error complaint => (⟨2, [], complaint⟩ : Tacit.CommandLine.Report).print
  | .ok options =>
      let request ← options.request
      (Tacit.CommandLine.run request).print
