import ParserGenerator.Sample.Basic

/-!
# Groups of words

All three families, nested in each other, and a rule for the empty text.
-/

namespace ParserGenerator.Sample.Groups

inductive Value where
  | null
  | word (text : String)
  | seq (items : List Value)
deriving Inhabited

instance : SemanticValue Value where
  null := .null
  isNull
    | .null => true
    | _ => false
  ofSeq := .seq
  seq?
    | .seq items => some items
    | _ => none

def source : String :=
  "%token <word> WORD 300
   %type <word> word, group
   %start doc
   %%
   doc : [<word>] (group) ;
   group : '(' [(word)] ')'
         | empty
         ;
   word : WORD WORD ;
   empty : ;
   %%"

def grammar : Grammar := grammarOf source []

def document : Handler Value :=
  .compute fun r ↦ do
    let header ← r.get? 1
    let groups ← r.get? 2
    return .seq [header, groups]

def handler (name : String) : Handler Value :=
  match name with
  | "p_doc" => document
  | "p_group_1" => .move 2
  | "p_word" => .move 1
  | "p_empty" => .compute fun _ ↦ some (.seq [])
  | _ => .noop

def classify (word : String) : String :=
  if word ∈ ["(", ")", ","] then "'" ++ word ++ "'" else "WORD"

def lift (word : Word) : Option Value :=
  if word.kind = "WORD" then some (.word word.text) else some .null

def sample : Sample Value := { grammar, handler, classify, lift }

end ParserGenerator.Sample.Groups
