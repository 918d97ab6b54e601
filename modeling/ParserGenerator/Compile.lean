import ParserGenerator.Grammar.Parser
import ParserGenerator.Module.Render

/-!
# Compilation

From the text of a grammar file to the text of a module.
-/

namespace ParserGenerator

open Grammar (SyntaxError)
open Lexer (Fault)

inductive CompileError where
  | syntactic (e : SyntaxError)
  /-- Illegal characters in strict mode. -/
  | faults (fs : List Fault)
  | generate (e : GenerateError)
deriving DecidableEq

namespace CompileError

def message : CompileError → String
  | .syntactic _ => "syntax error"
  | .faults fs => s!"strict mode: {fs.length} illegal character(s) in the grammar"
  | .generate _ => "failed to generate the parser"

/-- The messages of the errors behind this one, outermost first. -/
def causes : CompileError → List String
  | .syntactic e => [e.message]
  | .faults _ => []
  | .generate e => e.message :: e.causes

end CompileError

/-- The module that a grammar file stands for. -/
def compile (source : String) (o : Options) : Except CompileError String :=
  match (Grammar.parse source).result with
  | .error e => .error (.syntactic e)
  | .ok parsed =>
    if o.strict && !parsed.faults.isEmpty then .error (.faults parsed.faults)
    else
      match Module.generate (parsed.grammar.request o.families) o with
      | .error e => .error (.generate e)
      | .ok text => .ok text

/-- What compiling a grammar file reports: what reading it reports. -/
def compileEvents (source : String) : List Event := (Grammar.parse source).events

end ParserGenerator
