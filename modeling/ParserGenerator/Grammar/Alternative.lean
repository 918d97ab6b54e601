import ParserGenerator.Event
import ParserGenerator.Grammar.Basic

/-!
# From alternatives to rules

A rule of a grammar file is a list of alternatives, each a list of symbols and actions. The action
at the end of an alternative becomes the code of its rule; an action before the end is dropped with
a warning. Alternatives are numbered if there are several.
-/

namespace ParserGenerator

/-- A part of an alternative. -/
inductive Part where
  | symbol (name : String)
  /-- An action block with its braces, and the line where it starts. -/
  | action (text : String) (line : Nat)
deriving DecidableEq, Inhabited

abbrev Alternative := List Part

namespace Action

open Text

/-- The text between the outer braces; a text without them is left as it is. -/
def inner (text : List Char) : List Char :=
  match text with
  | '{' :: rest => if rest.getLast? = some '}' then rest.dropLast else text
  | _ => text

/-- The leading white space of the first among the least indented lines that are not blank. -/
def leastIndent (lines : List (List Char)) : List Char :=
  let indents := (lines.filter (!isBlankText ·)).map (·.takeWhile isBlank)
  match indents with
  | [] => []
  | first :: more =>
    more.foldl (fun best i ↦ if byteLength i < byteLength best then i else best) first

/-- The body of an action. Code on the line of the opening brace moves to a line of its own, with
the indentation of the least indented line after it; an action on one line is trimmed. -/
def body (text : List Char) : List Char :=
  let code := inner text
  match cutAt '\n' code with
  | none => trim code
  | some (first, rest) =>
    if isBlankText first then code
    else '\n' :: leastIndent (lines rest) ++ trim first ++ '\n' :: rest

end Action

namespace Alternative

def symbols (alt : Alternative) : List String :=
  alt.filterMap fun
    | .symbol name => some name
    | .action _ _ => none

/-- The body of the last part if that is an action. -/
def code (alt : Alternative) : String :=
  match alt.getLast? with
  | some (.action text _) => String.ofList (Action.body text.toList)
  | _ => ""

/-- The lines of the actions before the last part. -/
def droppedLines (alt : Alternative) : List Nat :=
  alt.dropLast.filterMap fun
    | .action _ line => some line
    | .symbol _ => none

def rule (lhs name : String) (alt : Alternative) : Rule :=
  { name
    production := lhs ++ " : " ++ Text.joinWith " " alt.symbols
    code := alt.code }

def events (lhs name : String) (alt : Alternative) : List Event :=
  alt.droppedLines.map (.droppedAction · name) ++ [.rule name (alt.rule lhs name).production]

/-- The names of the alternatives: the left-hand side, numbered from one if there are several. -/
def names (lhs : String) (count : Nat) : List String :=
  if count = 1 then [lhs] else (List.range count).map fun i ↦ s!"{lhs}_{i + 1}"

end Alternative

namespace Grammar

/-- Adds the rules of all alternatives of a nonterminal. -/
def addRule (g : Grammar) (lhs : String) (alts : List Alternative) : Grammar :=
  { g with
    rules := g.rules ++
      ((Alternative.names lhs alts.length).zip alts).map fun (name, alt) ↦ alt.rule lhs name }

def addRuleEvents (lhs : String) (alts : List Alternative) : List Event :=
  ((Alternative.names lhs alts.length).zip alts).flatMap fun (name, alt) ↦ alt.events lhs name

/-- Registers a base symbol that is wrapped in a shorthand. -/
def wrap (g : Grammar) (kind : FamilyKind) (base : String) : Grammar :=
  { g with families := g.families.insert kind base }

/-- A registration is reported the first time. -/
def wrapEvents (g : Grammar) (kind : FamilyKind) (base : String) : List Event :=
  if base ∈ g.families.get kind then [] else [.familyRequested kind base]

end Grammar

end ParserGenerator
