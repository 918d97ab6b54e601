import ParserGenerator.Sample.Basic
import ParserGenerator.Text.Numeral

/-!
# An optional block

A name and a number, or nothing. The grammar uses the optional family of the block without its
shorthand, so the family is requested from outside.
-/

namespace ParserGenerator.Sample.Blocks

open Text

inductive Value where
  | null
  | id (name : String)
  | number (n : Int)
  | block (name number : Value)
  | seq (items : List Value)
deriving Inhabited

instance : SemanticValue Value where
  null := .null
  isNull
    | .null => true
    | _ => false
  ofSeq := .seq
  seq?
    | .seq items => some items
    | _ => none

def source : String :=
  "%start file
   %token ID NUMBER
   %%
   file : block_opt ;
   block : ID NUMBER ;
   %%"

def grammar : Grammar := grammarOf source [(.optional, "block")]

def block : Handler Value :=
  .compute fun r ↦ do
    let name ← r.get? 1
    let number ← r.get? 2
    return .block name number

def handler (name : String) : Handler Value :=
  match name with
  | "p_file" => .move 1
  | "p_block" => block
  | _ => .noop

def classify (word : String) : String :=
  if word.toList.all Char.isDigit then "NUMBER" else "ID"

/-- A number outside of 64 bits has no value. -/
def lift (word : Word) : Option Value :=
  if word.kind = "NUMBER" then (readInt64? word.text.toList).map .number
  else some (.id word.text)

def sample : Sample Value := { grammar, handler, classify, lift }

end ParserGenerator.Sample.Blocks
