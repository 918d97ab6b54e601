import ParserGenerator.Files.System
import ParserGenerator.Text.Position

/-!
# File trees in memory

A tree of directories and files below a root. Paths are resolved step by step: every step but the
last has to lead to a directory, and a relative path starts at the root. Around the root there is a
directory of its own, which has nothing above it.
-/

namespace ParserGenerator

inductive Content where
  | text (s : String)
  /-- Bytes that are not a text in UTF-8. -/
  | binary (bytes : List UInt8)
deriving DecidableEq

inductive Node where
  | directory
  | file (content : Content)
deriving DecidableEq

/-- A place in a tree: the names from the root down to it. -/
abbrev Location := List String

/-- The directory around the root. Two dots are nobody's name, so the place is not below the root. -/
def Location.around : Location := [".."]

/-- The place that one step leads to. -/
def Location.step (loc : Location) (name : String) : Location :=
  if name = "." then loc
  else if name ≠ ".." then loc ++ [name]
  else if loc = [] ∨ loc = around then around
  else loc.dropLast

structure FileTree where
  /-- The absolute path of the root. -/
  root : Path
  /-- Everything but the root and the directory around it. -/
  nodes : List (Location × Node) := []
  /-- The environment. -/
  settings : List (String × String) := []

namespace FileTree

def node? (t : FileTree) (loc : Location) : Option Node :=
  if loc = [] ∨ loc = .around then some .directory else t.nodes.lookup loc

/-- Everything below the root. -/
def listing (t : FileTree) : List (Location × Node) :=
  t.nodes.filter fun entry ↦ !Location.around.isPrefixOf entry.1

def erase (t : FileTree) (loc : Location) : FileTree :=
  { t with nodes := t.nodes.filter (·.1 ≠ loc) }

/-- Puts a node in the place of what is there. -/
def set (t : FileTree) (loc : Location) (node : Node) : FileTree :=
  { t with nodes := t.nodes.filter (·.1 ≠ loc) ++ [(loc, node)] }

/-- The length of a name, in bytes, is limited. -/
def nameLimit : Nat := 255

/-- The length of a path, in bytes and with a character that ends it, is limited. -/
def pathLimit : Nat := 4096

/-- Takes steps from a place, which has to be a directory for every one of them. -/
def follow (t : FileTree) (loc : Location) : List String → Except OsError Location
  | [] => .ok loc
  | name :: rest =>
    match t.node? loc with
    | none => .error .notFound
    | some (.file _) => .error .notDirectory
    | some .directory =>
      if nameLimit < Text.byteLength name.toList then .error .nameTooLong
      else t.follow (loc.step name) rest

/-- The path as one that starts at the root. A path that goes on right after the name of the root
lies beside it, and an absolute path elsewhere leads nowhere. -/
def relative (t : FileTree) (p : Path) : Except OsError Path :=
  if '\x00' ∈ p.toList then .error .nullInName
  else if p = "" then .error .notFound
  else if pathLimit ≤ Text.byteLength p.toList then .error .nameTooLong
  else if p = t.root then .ok ""
  else if (t.root ++ "/").toList.isPrefixOf p.toList then
    .ok (String.ofList (p.toList.drop (t.root ++ "/").length))
  else if t.root.toList.isPrefixOf p.toList then
    .ok ("../" ++ t.root.names.getLastD "" ++ String.ofList (p.toList.drop t.root.length))
  else if p.isAbsolute then .error .notFound
  else .ok p

/-- The place of a path, at which there may be nothing. -/
def resolve (t : FileTree) (p : Path) : Except OsError Location :=
  match t.relative p with
  | .error e => .error e
  | .ok rest => t.follow [] rest.steps

/-- What there is at the place of a path. -/
def find (t : FileTree) (p : Path) : Except OsError (Location × Node) :=
  match t.resolve p with
  | .error e => .error e
  | .ok loc =>
    match t.node? loc with
    | none => .error .notFound
    | some (.file content) =>
      if p.wantsDirectory then .error .notDirectory else .ok (loc, .file content)
    | some .directory => .ok (loc, .directory)

def content (t : FileTree) (p : Path) : Except OsError Content :=
  match t.find p with
  | .error e => .error e
  | .ok (_, .directory) => .error .isDirectory
  | .ok (_, .file content) => .ok content

def read (t : FileTree) (p : Path) : Except OsError String :=
  match t.content p with
  | .error e => .error e
  | .ok (.text s) => .ok s
  | .ok (.binary _) => .error .invalidText

/-- The place where a file can be written. A path that ends in a slash stops at the directory that
its last name would be in. -/
def target (t : FileTree) (p : Path) : Except OsError Location :=
  match t.relative p with
  | .error e => .error e
  | .ok rest =>
    let steps := if p.wantsDirectory then rest.steps.dropLast ++ ["."] else rest.steps
    match t.follow [] steps with
    | .error e => .error e
    | .ok loc => if t.node? loc = some .directory then .error .isDirectory else .ok loc

def write (t : FileTree) (p : Path) (content : Content) : Except OsError FileTree :=
  match t.target p with
  | .error e => .error e
  | .ok loc => .ok (t.set loc (.file content))

/-- Puts a file from one place at another, unless there is a directory. -/
def moveFile (t : FileTree) (loc place : Location) (content : Content) :
    Except OsError FileTree :=
  if t.node? place = some .directory then .error .isDirectory
  else .ok ((t.erase loc).set place (.file content))

/-- Both places are resolved before anything is looked up at them. Only a file is moved, and a path
that can only be a directory is no place for it. -/
def rename (t : FileTree) (source destination : Path) : Except OsError FileTree :=
  match t.resolve source, t.resolve destination with
  | .error e, _ | .ok _, .error e => .error e
  | .ok loc, .ok place =>
    if source.endsInDots || destination.endsInDots then .error .busy
    else
      match t.node? loc with
      | none => .error .notFound
      | some .directory => .error .isDirectory
      | some (.file content) =>
        if source.wantsDirectory || destination.wantsDirectory then .error .notDirectory
        else t.moveFile loc place content

def remove (t : FileTree) (p : Path) : Except OsError FileTree :=
  match t.find p with
  | .error e => .error e
  | .ok (_, .directory) => .error .isDirectory
  | .ok (loc, .file _) => .ok (t.erase loc)

def copy (t : FileTree) (source destination : Path) : Except OsError FileTree :=
  match t.find source with
  | .error e => .error e
  | .ok (_, .directory) => .error .notRegular
  | .ok (_, .file content) => t.write destination content

def absolute (t : FileTree) (loc : Location) : Path :=
  Text.joinWith "/" (t.root :: loc)

def canonical (t : FileTree) (p : Path) : Except OsError Path :=
  match t.find p with
  | .error e => .error e
  | .ok (loc, _) => .ok (t.absolute loc)

/-! ## Creating directories -/

/-- Creates a directory where there is nothing. -/
def makeDirectory (t : FileTree) (steps : List String) : Except OsError FileTree :=
  match t.follow [] steps with
  | .error e => .error e
  | .ok loc =>
    if (t.node? loc).isSome then .error .alreadyExists else .ok (t.set loc .directory)

def isDirectory (t : FileTree) (steps : List String) : Bool :=
  match t.follow [] steps with
  | .error _ => false
  | .ok loc => t.node? loc = some .directory

/-- Creates a directory unless there is one. -/
def ensureDirectory (t : FileTree) (steps : List String) : Except OsError Unit × FileTree :=
  match t.makeDirectory steps with
  | .ok after => (.ok (), after)
  | .error e => (if t.isDirectory steps then .ok () else .error e, t)

/-- Ensures a directory, and those above it if one of them is missing. The steps are given in
reverse. -/
def ensureAll (t : FileTree) : List String → Except OsError Unit × FileTree
  | [] => (.ok (), t)
  | name :: above =>
    match t.ensureDirectory (name :: above).reverse with
    | (.error .notFound, _) =>
      match t.ensureAll above with
      | (.ok (), after) => after.ensureDirectory (name :: above).reverse
      | failed => failed
    | done => done

def createDirectories (t : FileTree) (p : Path) : Except OsError Unit × FileTree :=
  if p = "" then (.ok (), t)
  else
    match t.relative p with
    | .error e => (.error e, t)
    | .ok rest => t.ensureAll rest.names.reverse

/-- The paths of the files below a place, in the order of the tree. A file lies below itself. -/
def filesBelow (t : FileTree) (p : Path) : Except OsError (List Path) :=
  match t.find p with
  | .error e => .error e
  | .ok (_, .file _) => .ok [""]
  | .ok (loc, .directory) =>
    let below := t.nodes.filterMap fun
      | (l, .file _) => if loc.isPrefixOf l then some (l.drop loc.length) else none
      | _ => none
    .ok (below.map (Text.joinWith "/"))

/-- Runs an operation that changes the tree if it succeeds. -/
def update (f : FileTree → Except OsError FileTree) : StateM FileTree (Except OsError Unit) :=
  fun t ↦
    match f t with
    | .ok after => (.ok (), after)
    | .error e => (.error e, t)

instance : FileSystem (StateM FileTree) where
  read p := fun t ↦ (t.read p, t)
  write p text := update (·.write p (.text text))
  rename source destination := update (·.rename source destination)
  remove p := update (·.remove p)
  copy source destination := update (·.copy source destination)
  fileExists p := fun t ↦ ((t.find p).toBool, t)
  canonical p := fun t ↦ (t.canonical p, t)

instance : BuildSystem (StateM FileTree) where
  createDirectories p := fun t ↦ t.createDirectories p
  filesBelow p := fun t ↦ (t.filesBelow p, t)
  setting? name := fun t ↦ (t.settings.lookup name, t)

end FileTree

end ParserGenerator
