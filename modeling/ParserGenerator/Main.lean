import ParserGenerator.CommandLine.Run

/-!
# The program

The command line on the files of the machine.
-/

namespace ParserGenerator

/-- The error with a number of the system, and a reason for those that have no name here. -/
def OsError.ofCode (code : UInt32) (reason : String) : OsError :=
  match code.toNat with
  | 2 => .notFound
  | 16 => .busy
  | 17 => .alreadyExists
  | 20 => .notDirectory
  | 21 => .isDirectory
  | 36 => .nameTooLong
  | n => .other s!"{reason} (os error {n})"

/-- The error of the system behind an error of an operation on files. -/
def OsError.ofError : IO.Error → OsError
  | .noFileOrDirectory _ code reason | .alreadyExists _ code reason
  | .inappropriateType _ code reason | .invalidArgument _ code reason
  | .permissionDenied _ code reason | .resourceExhausted _ code reason
  | .noSuchThing _ code reason | .resourceBusy code reason | .otherError code reason =>
    .ofCode code reason
  | e => .other (toString e)

/-- Runs an operation and keeps its error. -/
def attempt {α : Type} (operation : IO α) : IO (Except OsError α) := do
  try
    return .ok (← operation)
  catch e => return .error (.ofError e)

/-- Reads a file as a text. -/
def readText (path : Path) : IO (Except OsError String) := do
  match ← attempt (IO.FS.readBinFile path) with
  | .error e => return .error e
  | .ok bytes =>
    match String.fromUTF8? bytes with
    | some text => return .ok text
    | none => return .error .invalidText

/-- Copies the content of a file, and of nothing else. -/
def copyFile (source destination : Path) : IO (Except OsError Unit) := do
  match ← attempt (do return (← (← IO.FS.realPath source).metadata).type) with
  | .error e => return .error e
  | .ok .file => attempt do IO.FS.writeBinFile destination (← IO.FS.readBinFile source)
  | .ok _ => return .error .notRegular

instance : FileSystem IO where
  read := readText
  write path text := attempt (IO.FS.writeFile path text)
  rename source destination := attempt (IO.FS.rename source destination)
  remove path := attempt (IO.FS.removeFile path)
  copy := copyFile
  fileExists path := do
    match ← attempt (IO.FS.realPath path) with
    | .ok _ => return true
    | .error _ => return false
  canonical path := attempt do return (← IO.FS.realPath path).toString

end ParserGenerator

def main (args : List String) : IO UInt32 := do
  let exit ← ParserGenerator.CommandLine.run (m := IO) args
  IO.print exit.out
  match exit.err with
  | some text => IO.eprint text
  | none =>
    IO.eprintln "usage: [-o OUTPUT] [--template FILE] [--tabsize N] [--strict] [--opt NAME]"
    IO.eprintln "       [--list NAME] [--string NAME] [--dump-ir] INPUT"
  return exit.code.toUInt32
