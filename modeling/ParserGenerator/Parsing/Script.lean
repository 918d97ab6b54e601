import ParserGenerator.Module.Render
import ParserGenerator.Parsing.Word
import ParserGenerator.Registry.Basic

/-!
# Parsers that follow a script

The tables of a grammar and its registry define a parser up to the choice of its next action. A
script makes that choice: it lists the shifts and reductions of one derivation in order. The engine
carries them out on a stack of values and refuses an input with too few or too many tokens.
-/

namespace ParserGenerator

/-- Everything that a parser is made of. -/
structure Definition (V : Type) where
  start : String
  tokens : List String
  precedence : List PrecedenceGroup
  registry : Registry V

namespace Definition

variable {V : Type} [SemanticValue V]

/-- The lines that a module of the grammar registers, with their handlers by name. -/
def linesOf (g : Grammar) (handler : String → Handler V) : List (String × String × Handler V) :=
  (Module.entries g).map fun e ↦ (e.handler, e.production, handler e.handler)

/-- Builds the registry of a grammar. -/
def register (g : Grammar) (handler : String → Handler V) : Registration V Unit :=
  Registry.load {} (linesOf g handler) g.families

end Definition

inductive Step where
  | shift
  | reduce (name : String)
deriving DecidableEq

namespace Script

/-- What the lexer of a parser holds: the words to come, the types among the words handed out, and
the hooks of the parser. -/
structure Source where
  pending : List Word := []
  typesSeen : List String := []
  hooks : Hooks := .ignored

/-- The next token. With `braces`, braces open and close scopes and are not handed out. -/
def Source.next (braces : Bool) (s : Source) : Option Word × Source :=
  if braces then
    match Words.nextOutsideBraces s.hooks s.pending with
    | (none, hooks, rest) => (none, { s with pending := rest, hooks })
    | (some (word, isType), hooks, rest) =>
      let seen := if isType then s.typesSeen ++ [word.text] else s.typesSeen
      (some word, ⟨rest, seen, hooks⟩)
  else
    match s.pending with
    | [] => (none, s)
    | word :: rest => (some word, { s with pending := rest })

/-- The engine while it runs: the stack of values, the last one first, the left-hand sides of the
reductions so far, the lexer, and what has been reported. -/
structure Machine (V : Type) where
  stack : List V
  reduced : List String
  source : Source
  events : List Event

/-- The outcome of a run and the machine it leaves. -/
structure Outcome (V : Type) where
  result : Except (Stop ParseError) V
  machine : Machine V

variable {V : Type} [SemanticValue V]

/-- The kind of lexer, and how a token becomes a value; a token may have none. -/
structure Reader (V : Type) where
  classify : String → String
  lift : Word → Option V
  braces : Bool := false

/-- Takes the next token onto the stack. -/
def shift (reader : Reader V) (m : Machine V) : Except (Stop ParseError) Unit × Machine V :=
  match m.source.next reader.braces with
  | (none, source) =>
    (.error (.error (.unexpected none Words.inputName)), { m with source })
  | (some word, source) =>
    match reader.lift word with
    | none => (.error .crash, { m with source })
    | some value => (.ok (), { m with source, stack := value :: m.stack })

/-- Replaces the values of a right-hand side by the value of the left-hand side. -/
def reduce (registry : Registry V) (name : String) (m : Machine V) :
    Except (Stop ParseError) Unit × Machine V :=
  match registry.find? name with
  | none => (.error (.error (.definition (.unknown name))), m)
  | some entry =>
    let arity := entry.production.rhs.length
    if arity ≤ m.stack.length then
      let m := { m with reduced := m.reduced ++ [entry.production.lhs] }
      match registry.reduce name (m.stack.take arity).reverse with
      | (.error (.error e), events) =>
        (.error (.error (.definition e)), { m with events := m.events ++ events })
      | (.error .crash, events) => (.error .crash, { m with events := m.events ++ events })
      | (.ok value, events) =>
        (.ok (), { m with stack := value :: m.stack.drop arity, events := m.events ++ events })
    else (.error .crash, m)

/-- All tokens have to be used up, and the start symbol alone has to be left. -/
def accept (start : String) (reader : Reader V) (m : Machine V) : Outcome V :=
  match m.source.next reader.braces with
  | (some word, source) =>
    ⟨.error (.error (.unexpected (some word) Words.inputName)), { m with source }⟩
  | (none, source) =>
    let m := { m with source }
    if m.reduced.getLast? = some start then
      match m.stack with
      | [value] => ⟨.ok value, m⟩
      | _ => ⟨.error .crash, m⟩
    else ⟨.error .crash, m⟩

/-- Carries out a script. -/
def run (definition : Definition V) (reader : Reader V) : List Step → Machine V → Outcome V
  | [], m => accept definition.start reader m
  | step :: rest, m =>
    let done := match step with
      | .shift => shift reader m
      | .reduce name => reduce definition.registry name m
    match done with
    | (.error e, m) => ⟨.error e, m⟩
    | (.ok (), m) => run definition reader rest m

/-! ## Parsers -/

/-- A parser between two parses. -/
structure Parser (V : Type) where
  definition : Definition V
  reader : Reader V
  script : List Step
  source : Source := {}
  /-- The left-hand sides of the reductions of the last parse. -/
  reduced : List String := []
  /-- How often the lexer has been told to count lines anew. -/
  resets : Nat := 0

/-- Parses a text. The lexer and the scopes keep their state, also if the parse fails. -/
def Parser.parse (p : Parser V) (text : String) :
    Except (Stop ParseError) V × Parser V × List Event :=
  let source := { p.source with pending := Words.ofString p.reader.classify text }
  let out := run p.definition p.reader p.script ⟨[], [], source, []⟩
  let after :=
    { p with
      source := out.machine.source
      reduced := out.machine.reduced
      resets := p.resets + 1 }
  (out.result, after, out.machine.events)

end Script

end ParserGenerator
