import ParserGenerator.Files.Path
import ParserGenerator.Module.Render
import ParserGenerator.Text.Numeral

/-!
# Arguments of the command line

One input file and options before or after it. An option with a value takes the next argument or
what follows an equals sign; the short option may have its value attached. A value in an argument of
its own does not start with a dash, and after a double dash every argument is an input file. Only
the requests for families may be repeated.
-/

namespace ParserGenerator.CommandLine

structure Arguments where
  input : Path
  output : Option Path := none
  template : Option Path := none
  tabSize : Nat := 4
  strict : Bool := false
  optional : List String := []
  list : List String := []
  string : List String := []
  dump : Bool := false
deriving DecidableEq

/-- Options that take a value. -/
inductive Valued where
  | output
  | template
  | tabSize
  | request (kind : FamilyKind)
deriving DecidableEq

def Valued.ofName? : String → Option Valued
  | "output" => some .output
  | "template" => some .template
  | "tabsize" => some .tabSize
  | "opt" => some (.request .optional)
  | "list" => some (.request .list)
  | "string" => some (.request .string)
  | _ => none

/-- What has been read of the arguments. -/
structure Draft where
  input : Option Path := none
  output : Option Path := none
  template : Option Path := none
  tabSize : Option Nat := none
  strict : Bool := false
  optional : List String := []
  list : List String := []
  string : List String := []
  dump : Bool := false

namespace Draft

/-- Sets a value that may be given once. -/
def once {α : Type} (old : Option α) (value : Option α) : Option (Option α) :=
  match old, value with
  | none, some v => some (some v)
  | _, _ => none

/-- A path is not empty. -/
def path? (s : String) : Option Path := if s = "" then none else some s

/-- A size has 64 bits. -/
def size? (s : String) : Option Nat :=
  let digits := match s.toList with
    | '+' :: rest => rest
    | cs => cs
  (Text.digits? digits).filter (· < UInt64.size)

def setInput (d : Draft) (s : String) : Option Draft :=
  (once d.input (path? s)).map fun input ↦ { d with input }

def setValue (d : Draft) (option : Valued) (s : String) : Option Draft :=
  match option with
  | .output => (once d.output (path? s)).map fun output ↦ { d with output }
  | .template => (once d.template (path? s)).map fun template ↦ { d with template }
  | .tabSize => (once d.tabSize (size? s)).map fun tabSize ↦ { d with tabSize }
  | .request .optional => some { d with optional := d.optional ++ [s] }
  | .request .list => some { d with list := d.list ++ [s] }
  | .request .string => some { d with string := d.string ++ [s] }

/-- Sets an option without a value, which may be given once. -/
def setFlag (d : Draft) (name : String) : Option Draft :=
  match name with
  | "strict" => if d.strict then none else some { d with strict := true }
  | "dump-ir" => if d.dump then none else some { d with dump := true }
  | _ => none

def finish (d : Draft) : Option Arguments :=
  d.input.map fun input ↦
    { input
      output := d.output
      template := d.template
      tabSize := d.tabSize.getD 4
      strict := d.strict
      optional := d.optional
      list := d.list
      string := d.string
      dump := d.dump }

end Draft

/-- An argument as it stands. -/
inductive Shape where
  | positional
  /-- The double dash. -/
  | escape
  /-- An option with a value that is attached or follows. -/
  | valued (option : Valued) (attached : Option String)
  | flag (name : String)
  | unknown
deriving DecidableEq

def Shape.of (arg : String) : Shape :=
  match arg.toList with
  | ['-', '-'] => .escape
  | '-' :: '-' :: rest =>
    let (name, attached) := match Text.cutAt '=' rest with
      | some (name, value) => (String.ofList name, some (String.ofList value))
      | none => (String.ofList rest, none)
    match Valued.ofName? name, attached with
    | some option, _ => .valued option attached
    | none, none => .flag name
    | none, some _ => .unknown
  | ['-', 'o'] => .valued .output none
  | '-' :: 'o' :: '=' :: value => .valued .output (some (String.ofList value))
  | '-' :: 'o' :: value => .valued .output (some (String.ofList value))
  | '-' :: _ :: _ => .unknown
  | _ => .positional

/-- Reads arguments one by one; after an option without its value the next argument is that value. -/
def readFrom (d : Draft) : List String → Option Draft
  | [] => some d
  | [arg] =>
    match Shape.of arg with
    | .positional => d.setInput arg
    | .escape => some d
    | .valued option (some value) => d.setValue option value
    | .valued _ none => none
    | .flag name => d.setFlag name
    | .unknown => none
  | arg :: next :: rest =>
    match Shape.of arg with
    | .positional => (d.setInput arg).bind fun d ↦ readFrom d (next :: rest)
    | .escape => (next :: rest).foldlM Draft.setInput d
    | .valued option (some value) =>
      (d.setValue option value).bind fun d ↦ readFrom d (next :: rest)
    | .valued option none =>
      if Shape.of next = .positional then
        (d.setValue option next).bind fun d ↦ readFrom d rest
      else none
    | .flag name => (d.setFlag name).bind fun d ↦ readFrom d (next :: rest)
    | .unknown => none

/-- The arguments of a command line, if they are well formed. -/
def Arguments.read? (args : List String) : Option Arguments :=
  (readFrom {} args).bind Draft.finish

/-- The options that the arguments ask for, apart from the template. -/
def Arguments.options (a : Arguments) (template : Option String) : Options :=
  { fileName := a.input
    template
    tabSize := a.tabSize
    strict := a.strict
    families := a.optional.map (.optional, ·) ++ a.list.map (.list, ·) ++
      a.string.map (.string, ·) }

end ParserGenerator.CommandLine
