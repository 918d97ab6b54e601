import ParserGenerator.Text.Blank
import ParserGenerator.Text.Lines

/-!
# Outdenting action code

The lines of an action body, moved to the left by one indentation unit if every line that is not
blank starts with one. Blank lines become empty; one empty line at the start and all empty lines at
the end are left out.
-/

namespace ParserGenerator.Module

open Text

/-- The line starts with `unit` spaces. -/
def startsWithUnit (unit : Nat) (line : List Char) : Bool :=
  (line.take unit).length == unit && (line.take unit).all (· == ' ')

/-- Removes one unit from every line that is not blank, if all of them start with one. -/
def shiftLeft (unit : Nat) (lines : List (List Char)) : List (List Char) :=
  if lines.all fun line ↦ isBlankText line || startsWithUnit unit line then
    lines.map fun line ↦ if isBlankText line then line else line.drop unit
  else lines

def clearBlank (line : List Char) : List Char := if isBlankText line then [] else line

def dropFirstEmpty : List (List Char) → List (List Char)
  | [] :: rest => rest
  | lines => lines

def dropLastEmpty (lines : List (List Char)) : List (List Char) :=
  (lines.reverse.dropWhile List.isEmpty).reverse

def outdentChars (tabSize : Nat) (code : List Char) : List (List Char) :=
  dropLastEmpty (dropFirstEmpty ((shiftLeft (max tabSize 1) (lines code)).map clearBlank))

/-- A tab size of zero counts as one. -/
def outdent (tabSize : Nat) (code : String) : List String :=
  (outdentChars tabSize code.toList).map String.ofList

end ParserGenerator.Module
