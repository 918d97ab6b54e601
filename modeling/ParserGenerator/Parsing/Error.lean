import ParserGenerator.Registry.Production

/-!
# Errors of a parse

A token of the input knows its place. An error is reported at a place of a file, of which the line
and the column may be unknown.
-/

namespace ParserGenerator

/-- A place in a file. -/
structure Coord where
  file : String
  line : Option Nat := none
  column : Option Nat := none
deriving DecidableEq, Inhabited

/-- `file:line:column` without the unknown parts; a column without a line is not shown. -/
def Coord.label (c : Coord) : String :=
  match c.line, c.column with
  | none, _ => c.file
  | some line, none => s!"{c.file}:{line}"
  | some line, some column => s!"{c.file}:{line}:{column}"

/-- A token handed to a parser. -/
structure Word where
  /-- The terminal that the word stands for. -/
  kind : String
  text : String
  line : Nat
  column : Nat
deriving DecidableEq, Inhabited

inductive ParseError where
  | syntactic (coord : Coord) (reason : String)
  | definition (e : DefinitionError)
  /-- The engine could not be built. -/
  | builder (reason : String)
deriving DecidableEq

namespace ParseError

def message : ParseError → String
  | .syntactic coord reason => coord.label ++ ": " ++ reason
  | .definition e => e.message
  | .builder reason => "table builder error: " ++ reason

/-- The error for a token that no action exists for, or for the end of the input. -/
def unexpected (word? : Option Word) (file : String) : ParseError :=
  match word? with
  | some word => .syntactic ⟨file, word.line, word.column⟩ ("before: " ++ word.text)
  | none => .syntactic ⟨file, none, none⟩ "At end of input"

end ParseError

end ParserGenerator
