import ParserGenerator.Parsing.Scope
import ParserGenerator.Text.Position

/-!
# Words as tokens

A simple lexer for trying out parsers: every line is split at single spaces, and every part that is
not empty is a token. Columns are counted in bytes. The lexer may take braces as the begin and the
end of a scope instead of handing them on.
-/

namespace ParserGenerator.Words

open Text

/-- The words among the parts of a line, the first of which starts at the given column. -/
def ofParts (classify : String → String) (line column : Nat) : List (List Char) → List Word
  | [] => []
  | part :: rest =>
    let later := ofParts classify line (column + byteLength part + 1) rest
    if part.isEmpty then later
    else
      let text := String.ofList part
      ⟨classify text, text, line, column⟩ :: later

/-- The words of lines, the first of which has the given number. -/
def ofLines (classify : String → String) (line : Nat) : List (List Char) → List Word
  | [] => []
  | cs :: rest => ofParts classify line 1 (splitAt ' ' cs) ++ ofLines classify (line + 1) rest

def ofString (classify : String → String) (text : String) : List Word :=
  ofLines classify 1 (lines text.toList)

/-- The first word that is not a brace, whether it is a type at that place, the hooks after it and
the words after it. -/
def nextOutsideBraces (hooks : Hooks) : List Word → Option (Word × Bool) × Hooks × List Word
  | [] => (none, hooks, [])
  | word :: rest =>
    if word.text = "\x7b" then nextOutsideBraces hooks.beginScope rest
    else if word.text = "\x7d" then nextOutsideBraces hooks.endScope rest
    else (some (word, hooks.isType word.text), hooks, rest)

/-! ## Words by number -/

/-- The words of a text that is split at spaces. All are on the first line, and a column is the
number of the word. -/
def numbered (text : String) : List Word :=
  let parts := (splitAt ' ' text.toList).filter (!·.isEmpty)
  parts.mapIdx fun i part ↦ ⟨"WORD", String.ofList part, 1, i + 1⟩

/-- All words outside of braces, each with whether it is a type at its place, and the hooks after
them. -/
def outsideBraces (hooks : Hooks) : List Word → List (Word × Bool) × Hooks
  | [] => ([], hooks)
  | word :: rest =>
    if word.text = "\x7b" then outsideBraces hooks.beginScope rest
    else if word.text = "\x7d" then outsideBraces hooks.endScope rest
    else
      let later := outsideBraces hooks rest
      ((word, hooks.isType word.text) :: later.1, later.2)

/-- A word with a kind that tells types from other names. -/
def named (word : Word) (isType : Bool) : Word :=
  { word with kind := if isType then "TYPE" else "ID" }

/-- The name of the input of the lexer that numbers its words. -/
def numberedName : String := "<braces>"

/-- The name of the input of the lexer that reads lines. -/
def inputName : String := "<words>"

end ParserGenerator.Words
