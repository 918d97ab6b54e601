import ParserGenerator.Files.Compile

/-!
# Builds

A build compiles every grammar file below a directory to a module at the same place below an output
directory. It asks its caller to be run again when one of the grammar files changes.
-/

namespace ParserGenerator

structure Build where
  root : Path
  out : Path
  options : Options := {}

namespace Build

/-- How a build ended, what it has printed and what was reported on the way. -/
structure Report where
  answer : Except Complaint Unit
  printed : List String := []
  events : List Event := []

/-- A report that continues another one. -/
def Report.after (later first : Report) : Report :=
  ⟨later.answer, first.printed ++ later.printed, first.events ++ later.events⟩

/-- The extension of grammar files. -/
def grammarExtension : String := "ypp"

/-- The module of a grammar file, whose path below the root is given. -/
def moduleOf (b : Build) (file : Path) : Path := (b.out.join file).setExtension "rs"

/-- The path of a file below the root. -/
def sourceOf (b : Build) (file : Path) : Path := if file = "" then b.root else b.root.join file

/-- The line that asks for a new run when a file changes. -/
def rerunLine (path : Path) : String := "cargo:rerun-if-changed=" ++ path

def isGrammar (b : Build) (file : Path) : Bool :=
  (b.sourceOf file).extension? = some grammarExtension

variable {m : Type → Type} [Monad m] [BuildSystem m]

/-- Compiles one grammar file. -/
def compileOne (b : Build) (file : Path) : m Report := do
  let source := b.sourceOf file
  let output := b.moduleOf file
  match ← BuildSystem.createDirectories output.parent with
  | .error e => return { answer := .error ⟨e.message, []⟩ }
  | .ok () =>
    let compiled ← compileFile source output { b.options with fileName := file }
    let answer := match compiled.answer with
      | .ok () => .ok ()
      | .error e => .error ⟨"failed to compile " ++ source, e.message :: e.causes⟩
    return ⟨answer, [rerunLine source], compiled.events⟩

/-- Compiles grammar files in order, up to the first failure. -/
def compileAll (b : Build) : List Path → m Report
  | [] => return { answer := .ok () }
  | file :: rest => do
    let first ← b.compileOne file
    match first.answer with
    | .error _ => return first
    | .ok () => return (← b.compileAll rest).after first

/-- Compiles all grammar files below the root. -/
def process (b : Build) : m Report := do
  match ← BuildSystem.filesBelow b.root with
  | .error e =>
    let reason := s!"IO error for operation on {b.root}: " ++ e.message
    return { answer := .error ⟨"from WalkDir entry", [reason, e.message]⟩ }
  | .ok files => b.compileAll (files.filter b.isGrammar)

/-! ## Builds from the environment -/

def rootVariable : String := "CARGO_MANIFEST_DIR"

def outVariable : String := "OUT_DIR"

def unset (name : String) : Complaint := ⟨s!"The environment variable `{name}' is not set", []⟩

/-- The build of a directory into the output directory of the environment. -/
def ofRoot (root : Path) (options : Options) : m (Except Complaint Build) := do
  match ← BuildSystem.setting? outVariable with
  | none => return .error (unset outVariable)
  | some out => return .ok { root, out, options }

/-- Compiles a directory into the output directory of the environment. -/
def processRoot (root : Path) (options : Options) : m Report := do
  match ← ofRoot root options with
  | .error e => return { answer := .error e }
  | .ok b => b.process

/-- Compiles the root directory of the environment. -/
def processEnvironment : m Report := do
  match ← BuildSystem.setting? rootVariable with
  | none => return { answer := .error (unset rootVariable) }
  | some root => processRoot root {}

/-- Compiles a directory relative to another one, by its absolute path. -/
def processWithin (base directory : Path) (options : Options) : m Report := do
  match ← FileSystem.canonical (base.join directory) with
  | .error e => return { answer := .error ⟨e.message, []⟩ }
  | .ok root => processRoot root options

/-- Compiles two directories below the root directory of the environment, the second one with
families requested from outside. -/
def processTwo (plain requesting : Path) (requests : List (FamilyKind × String)) : m Report := do
  match ← BuildSystem.setting? rootVariable with
  | none => return { answer := .error (unset rootVariable) }
  | some base =>
    let first ← processWithin base plain {}
    match first.answer with
    | .error _ => return first
    | .ok () =>
      let second ← processWithin base requesting { families := requests }
      return second.after first

end Build

end ParserGenerator
