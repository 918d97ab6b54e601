import ParserGenerator.CommandLine.Arguments
import ParserGenerator.Files.Compile

/-!
# Runs of the command line

A run reads the grammar file, warns about illegal characters, writes a dump if that is asked for,
keeps a copy of an output file that is there already, and writes the module.
-/

namespace ParserGenerator.CommandLine

open Lexer (Fault)

/-- The end of a run: the exit code and what has been printed. A run that does not get beyond its
arguments has no message of its own. -/
structure Exit where
  code : Nat
  out : String := ""
  err : Option String := some ""
deriving DecidableEq

/-! ## Complaints on the screen -/

/-- Indents the lines of a cause after the first, empty ones included. -/
def indentLines (indent : String) (cause : String) : String :=
  Text.joinWith ("\n" ++ indent) ((Text.splitAt '\n' cause.toList).map String.ofList)

/-- A number at the end of five places. -/
def numberLabel (n : Nat) : String :=
  let digits := toString n
  String.ofList (List.replicate (5 - digits.length) ' ') ++ digits ++ ": "

def causeLines : List String → String
  | [] => ""
  | [cause] => "\n\nCaused by:\n    " ++ indentLines "    " cause
  | causes =>
    "\n\nCaused by:" ++ Text.concat (causes.mapIdx fun i cause ↦
      "\n" ++ numberLabel i ++ indentLines "       " cause)

/-- A complaint with its causes on lines of their own, numbered if there are several. -/
def complaintText (c : Complaint) : String := "Error: " ++ c.message ++ causeLines c.causes ++ "\n"

/-! ## Runs -/

/-- What a run has printed and how it ended. -/
structure Report where
  printed : String
  answer : Except Complaint Unit

def warning (input : Path) (fault : Fault) : String :=
  s!"[warning] {input}: " ++ fault.message ++ "\n"

variable {m : Type → Type} [Monad m] [FileSystem m]

/-- Reads the template that the arguments name, if they do. -/
def readTemplate (a : Arguments) : m (Except Complaint (Option String)) := do
  match a.template with
  | none => return .ok none
  | some path =>
    match ← FileSystem.read path with
    | .error e => return .error (e.within ("failed to read " ++ path))
    | .ok text => return .ok (some text)

/-- Writes a file, with a message in front of an error. -/
def writeFile (path : Path) (text message : String) : m (Except Complaint Unit) := do
  match ← FileSystem.write path text with
  | .error e => return .error (e.within (message ++ path))
  | .ok () => return .ok ()

/-- Copies an output file that is there already. -/
def backUp (output : Path) : m (Except Complaint Unit) := do
  if ← FileSystem.fileExists output then
    let backup := output.withExtension "rs.bak"
    match ← FileSystem.copy output backup with
    | .error e => return .error (e.within ("failed to backup the output file to " ++ backup))
    | .ok () => return .ok ()
  else return .ok ()

/-- Generates the module of a grammar and writes it to the output file. -/
def emit (g : Grammar) (o : Options) (output : Path) : m (Except Complaint Unit) := do
  match Module.generate g o with
  | .error e => return .error ⟨e.message, e.causes⟩
  | .ok text =>
    match ← backUp output with
    | .error e => return .error e
    | .ok () => writeFile output text "failed to write generated parser to "

/-- Writes the dump of a grammar if that is asked for, and then its module. -/
def finish (a : Arguments) (input : Path) (g : Grammar) (o : Options) :
    m (Except Complaint Unit) := do
  let dumped ←
    if a.dump then writeFile (input.withExtension "expanded") g.dump "failed to write "
    else pure (.ok ())
  match dumped with
  | .error e => return .error e
  | .ok () => emit g o (a.output.getD (input.withExtension "rs"))

/-- Works on the grammar file at an absolute path. -/
def process (a : Arguments) (input : Path) : m Report := do
  match ← readTemplate a with
  | .error e => return ⟨"", .error e⟩
  | .ok template =>
    let o := a.options template
    let report ← parseFile input
    match report.answer with
    | .error e => return ⟨"", .error e⟩
    | .ok parsed =>
      let printed := Text.concat (parsed.faults.map (warning a.input))
      if a.strict && !parsed.faults.isEmpty then
        return ⟨printed,
          .error ⟨s!"{parsed.faults.length} illegal character(s) in strict mode", []⟩⟩
      else
        let answer ← finish a input (parsed.grammar.request o.families) o
        return ⟨printed, answer⟩

/-- Runs well-formed arguments. -/
def runArguments (a : Arguments) : m Report := do
  match ← FileSystem.canonical a.input with
  | .error e =>
    return ⟨"", .error (e.within "failed to canonicalize the input file name")⟩
  | .ok input => process a input

/-- Runs a command line. -/
def run (args : List String) : m Exit := do
  match Arguments.read? args with
  | none => return { code := 2, err := none }
  | some a =>
    let report ← runArguments a
    match report.answer with
    | .ok () => return { code := 0, out := report.printed }
    | .error e =>
      let complaint := e.within ("errored during processing " ++ a.input)
      return { code := 1, out := report.printed, err := some (complaintText complaint) }

end ParserGenerator.CommandLine
