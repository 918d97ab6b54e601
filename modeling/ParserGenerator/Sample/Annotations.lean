import ParserGenerator.Sample.Basic
import ParserGenerator.Text.Numeral

/-!
# Position annotations

A file is a list of blocks, each of which spans two source positions and carries annotations. Words
are written `KIND=text`.
-/

namespace ParserGenerator.Sample.Annotations

open Text

inductive Value where
  | null
  | text (s : String)
  | position (file : String) (line column offset : Nat)
  | note (kind value : String)
  | block (first last : Value) (annotations : List Value)
  | seq (items : List Value)
deriving Inhabited

instance : SemanticValue Value where
  null := .null
  isNull
    | .null => true
    | _ => false
  ofSeq := .seq
  seq?
    | .seq items => some items
    | _ => none

namespace Value

/-- The text of a value; other values have the empty text. -/
def asText : Value → String
  | .text s => s
  | _ => ""

/-- The number that the text of a value reads as, else zero. -/
def asNumber (v : Value) : Nat := (readUInt32? v.asText.toList).getD 0

/-- The items of an optional sequence; any other value is one item. -/
def items : Value → List Value
  | .seq items => items
  | .null => []
  | v => [v]

end Value

def source : String :=
  "%token FILENAME NUMBER TYPE IDENT CALL VAL
   %start file
   %%
   file : [(block)] ;
   block : position position [(annotation)] ;
   position : FILENAME NUMBER NUMBER NUMBER ;
   annotation : TYPE VAL
              | IDENT VAL
              | CALL VAL
              ;
   %%"

def grammar : Grammar := grammarOf source []

def position : Handler Value :=
  .compute fun r ↦ do
    let file ← r.get? 1
    let line ← r.get? 2
    let column ← r.get? 3
    let offset ← r.get? 4
    return .position file.asText line.asNumber column.asNumber offset.asNumber

def block : Handler Value :=
  .compute fun r ↦ do
    let first ← r.get? 1
    let last ← r.get? 2
    let annotations ← r.get? 3
    return .block first last annotations.items

def annotate (kind : String) : Handler Value :=
  .compute fun r ↦ (r.get? 2).map fun v ↦ .note kind v.asText

def handler (name : String) : Handler Value :=
  match name with
  | "p_file" => .compute fun r ↦ (r.get? 1).map fun v ↦ .seq v.items
  | "p_block" => block
  | "p_position" => position
  | "p_annotation_1" => annotate "type"
  | "p_annotation_2" => annotate "ident"
  | "p_annotation_3" => annotate "call"
  | _ => .noop

/-- The terminal before the equals sign; other words stand for no terminal of the grammar. -/
def classify (word : String) : String :=
  let kind := match cutAt '=' word.toList with
    | some (before, _) => String.ofList before
    | none => word
  if kind ∈ grammar.tokens then kind else "$unknown"

/-- The text after the equals sign. -/
def lift (word : Word) : Option Value :=
  match cutAt '=' word.text.toList with
  | some (_, after) => some (.text (String.ofList after))
  | none => some .null

def sample : Sample Value := { grammar, handler, classify, lift }

end ParserGenerator.Sample.Annotations
