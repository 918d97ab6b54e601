import ParserGenerator.Sample.Basic
import ParserGenerator.Text.Numeral

/-!
# A calculator

Integer arithmetic on comma-separated expressions, with precedence declarations. Numbers have 64
bits: a numeral or a result outside of that range crashes the parse. Division truncates, and a
division by zero gives zero.
-/

namespace ParserGenerator.Sample.Calculator

open Text

inductive Value where
  | null
  | num (n : Int)
  | seq (items : List Value)
deriving Inhabited

instance : SemanticValue Value where
  null := .null
  isNull
    | .null => true
    | _ => false
  ofSeq := .seq
  seq?
    | .seq items => some items
    | _ => none

/-- The number of a value; other values count as zero. -/
def Value.number : Value → Int
  | .num n => n
  | _ => 0

def source : String :=
  "%token NUM
   %left '+' '-'
   %left '*' '/'
   %right UMINUS
   %%
   stmts : <expr> ;
   expr : expr '+' expr
        | expr '-' expr
        | expr '*' expr
        | expr '/' expr
        | '-' expr %prec UMINUS
        | '(' expr ')'
        | NUM
        ;
   %%"

def grammar : Grammar := grammarOf source []

/-- A binary operation on the first and the third child. -/
def binary (op : Int → Int → Int) : Handler Value :=
  .compute fun r ↦ do
    let a ← r.get? 1
    let b ← r.get? 3
    let n ← int64? (op a.number b.number)
    return .num n

def negation : Handler Value :=
  .compute fun r ↦ do
    let a ← r.get? 2
    let n ← int64? (-a.number)
    return .num n

def handler (name : String) : Handler Value :=
  match name with
  | "p_stmts" => .move 1
  | "p_expr_1" => binary (· + ·)
  | "p_expr_2" => binary (· - ·)
  | "p_expr_3" => binary (· * ·)
  | "p_expr_4" => binary Int.tdiv
  | "p_expr_5" => negation
  | "p_expr_6" => .move 2
  | "p_expr_7" => .move 1
  | _ => .noop

/-- The signs stand for themselves; every other word is a number. -/
def classify (word : String) : String :=
  if word ∈ ["+", "-", "*", "/", "(", ")", ","] then "'" ++ word ++ "'" else "NUM"

def lift (word : Word) : Option Value :=
  if word.kind = "NUM" then (readInt64? word.text.toList).map .num else some .null

def sample : Sample Value := { grammar, handler, classify, lift }

end ParserGenerator.Sample.Calculator
