import ParserGenerator.Compile
import ParserGenerator.Files.System

/-!
# Compiling files

The module is written to a temporary file next to the output and moved into place, so that a failure
leaves no half-written output behind.
-/

namespace ParserGenerator

inductive FileError where
  | compile (e : CompileError)
  /-- An operation on the file at the path failed. -/
  | io (path : Path) (e : OsError)
deriving DecidableEq

namespace FileError

def message : FileError → String
  | .compile e => e.message
  | .io path _ => "I/O error on " ++ path

/-- The messages of the errors behind this one, outermost first. -/
def causes : FileError → List String
  | .compile e => e.causes
  | .io _ e => [e.message]

end FileError

/-- The temporary file next to an output file. -/
def temporary (output : Path) : Path := output ++ ".tmp"

/-- The answer of work on a file, with what was reported on the way. -/
structure Reported (α : Type) where
  answer : α
  events : List Event := []

variable {m : Type → Type} [Monad m] [FileSystem m]

/-- Moves the temporary file into place, or removes it if that fails. -/
def publish (output : Path) : m (Except FileError Unit) := do
  match ← FileSystem.rename (temporary output) output with
  | .ok () => return .ok ()
  | .error e =>
    let _ ← FileSystem.remove (m := m) (temporary output)
    return .error (.io output e)

/-- Writes a module by way of the temporary file. -/
def writeModule (output : Path) (text : String) : m (Except FileError Unit) := do
  match ← FileSystem.write (temporary output) text with
  | .error e => return .error (.io (temporary output) e)
  | .ok () => publish output

/-- Compiles the grammar file `input` to the module `output`. -/
def compileFile (input output : Path) (o : Options) : m (Reported (Except FileError Unit)) := do
  match ← FileSystem.read input with
  | .error e => return { answer := .error (.io input e) }
  | .ok source =>
    let answer ←
      match compile source o with
      | .error e => pure (.error (.compile e))
      | .ok text => writeModule output text
    return ⟨answer, compileEvents source⟩

/-! ## Messages with causes -/

/-- A message and the messages of what caused it, outermost first. -/
structure Complaint where
  message : String
  causes : List String
deriving DecidableEq

/-- Puts a message in front of a complaint. -/
def Complaint.within (c : Complaint) (message : String) : Complaint :=
  ⟨message, c.message :: c.causes⟩

/-- An error of the system with a message in front of it. -/
def OsError.within (e : OsError) (message : String) : Complaint := ⟨message, [e.message]⟩

/-- Reads the grammar file at a path. -/
def parseFile (path : Path) : m (Reported (Except Complaint Grammar.Parsed)) := do
  match ← FileSystem.read path with
  | .error e => return { answer := .error (e.within ("failed to read " ++ path)) }
  | .ok source =>
    let report := Grammar.parse source
    let answer := match report.result with
      | .error e => .error ⟨"failed to parse " ++ path, [e.message]⟩
      | .ok parsed => .ok parsed
    return ⟨answer, report.events⟩

end ParserGenerator
