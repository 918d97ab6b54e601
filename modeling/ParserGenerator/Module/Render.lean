import ParserGenerator.Module.Check
import ParserGenerator.Module.Outdent
import ParserGenerator.Template.Standard
import ParserGenerator.Text.Quoted

/-!
# Generated modules

The tables and handlers of a grammar are written into the placeholders of a template.
-/

namespace ParserGenerator

/-- How a module is generated. -/
structure Options where
  /-- The name of the grammar file in the header of the module. -/
  fileName : String := "<input>"
  /-- The template, if not the standard one. -/
  template : Option String := none
  /-- The width of one indentation unit; zero counts as one. -/
  tabSize : Nat := 4
  /-- Illegal characters are an error. -/
  strict : Bool := false
  /-- Families to register although the grammar may not use their shorthand. -/
  families : List (FamilyKind × String) := []
deriving DecidableEq, Inhabited

namespace Options

/-- The pieces of the template. -/
def pieces (o : Options) : Except Template.TemplateError (List Template.Piece) :=
  Template.parse (o.template.getD Template.standard)

/-- The indentation of the given depth. -/
def indent (o : Options) (depth : Nat) : String :=
  String.ofList (List.replicate (depth * max o.tabSize 1) ' ')

end Options

namespace Module

/-- What a template can ask for. -/
inductive Slot where
  | fileName
  | start
  | precedence
  | tokens
  | family (kind : FamilyKind)
  | productions
  | handlers
  | prologue
  | epilogue
deriving DecidableEq

namespace Slot

def name : Slot → String
  | .fileName => "cfg_filename"
  | .start => "start"
  | .precedence => "precs"
  | .tokens => "tokens"
  | .family kind => kind.label ++ "_rules"
  | .productions => "productions"
  | .handlers => "handlers"
  | .prologue => "prologue"
  | .epilogue => "epilogue"

def all : List Slot :=
  [.fileName, .start, .precedence, .tokens, .family .optional, .family .list, .family .string,
   .productions, .handlers, .prologue, .epilogue]

def ofName? (s : String) : Option Slot := all.find? (·.name = s)

end Slot

/-- The names that a template may use. -/
def placeholders : List String := Slot.all.map Slot.name

/-! ## Entries -/

/-- A row of the production table: the handler, the production and the code of the handler. -/
structure Entry where
  handler : String
  production : String
  code : String
deriving DecidableEq

/-- The nonterminal for the empty text, which every module has. -/
def emptyName : String := "empty"

/-- The entry for the empty text in a grammar without a rule for it. -/
def emptyEntry : Entry := ⟨"p_empty", "empty : ", "p.set(Value::null());"⟩

def Entry.ofRule (r : Rule) : Entry := ⟨r.handler, r.production, r.code⟩

/-- The rules in order of declaration, and the entry for the empty text if no rule defines it. -/
def entries (g : Grammar) : List Entry :=
  g.rules.map Entry.ofRule ++ if g.defines emptyName then [] else [emptyEntry]

/-! ## Blocks -/

section Tables

variable (plain : Char → Bool)

def precedenceLine (indent : String) (group : PrecedenceGroup) : String :=
  indent ++ "(" ++ group.assoc.path ++ ", &[" ++
    Text.joinWith ", " (group.tokens.map (Text.quoteWith plain)) ++ "]),\n"

def nameBlock (indent : String) (names : List String) : String :=
  Text.concat (names.map fun name ↦ indent ++ Text.quoteWith plain name ++ ",\n")

def handlerLine (indent : String) (e : Entry) : String :=
  indent ++ "(" ++ Text.quoteWith plain e.handler ++ ", " ++ Text.quoteWith plain e.production ++
    ", Actions::" ++ e.handler ++ "),\n"

end Tables

def bodyLine (indent line : String) : String :=
  if line = "" then "\n" else indent ++ line ++ "\n"

/-- The handler of an entry, with its production as a comment. -/
def handlerBlock (o : Options) (e : Entry) : String :=
  o.indent 1 ++ "/// " ++ e.production ++ "\n" ++
  o.indent 1 ++ "fn " ++ e.handler ++ "(p: &mut Reduction<Value>) \x7b\n" ++
  Text.concat ((outdent o.tabSize e.code).map (bodyLine (o.indent 2))) ++
  o.indent 1 ++ "\x7d\n"

/-- A piece of copied code, without the line feeds around it. -/
def codeBlock (code : String) : String :=
  String.ofList (Text.trimChar '\n' code.toList) ++ "\n"

/-- What is written for a placeholder, with the given characters plain in literals. -/
def Slot.contentWith (plain : Char → Bool) (g : Grammar) (o : Options) : Slot → String
  | .fileName => o.fileName
  | .start => g.start
  | .precedence => Text.concat (g.precedence.map (precedenceLine plain (o.indent 1)))
  | .tokens => nameBlock plain (o.indent 1) g.tokens.names
  | .family kind => nameBlock plain (o.indent 1) (g.families.get kind).names
  | .productions => Text.joinWith "\n" ((entries g).map (handlerBlock o))
  | .handlers => Text.concat ((entries g).map (handlerLine plain (o.indent 1)))
  | .prologue => Text.joinWith "\n" (g.prologue.map codeBlock)
  | .epilogue => (g.epilogue.map codeBlock).getD ""

def valueWith? (plain : Char → Bool) (g : Grammar) (o : Options) (name : String) :
    Option String :=
  (Slot.ofName? name).map (Slot.contentWith plain g o)

/-- The value of a placeholder by its name. -/
def value? (g : Grammar) (o : Options) (name : String) : Option String :=
  valueWith? Text.isPrintable g o name

/-- The module of a grammar: the template is read and checked first, then the grammar. -/
def generate (g : Grammar) (o : Options) : Except GenerateError String :=
  match o.pieces with
  | .error e => .error (.template e)
  | .ok pieces =>
    match Template.check placeholders pieces with
    | .error e => .error (.template e)
    | .ok () =>
      match g.problem? with
      | some e => .error e
      | none => .ok (Template.render (value? g o) pieces).text

end Module

end ParserGenerator
