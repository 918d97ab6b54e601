import ParserGenerator.Compile
import ParserGenerator.Parsing.Script

/-!
# Sample grammars

A sample is a grammar with handlers for its rules, the terminals that words stand for and the
values that words have.
-/

namespace ParserGenerator

structure Sample (V : Type) where
  grammar : Grammar
  handler : String → Handler V
  classify : String → String
  /-- The value of a token; some words have none. -/
  lift : Word → Option V

namespace Sample

/-- The grammar of a source that is free of errors, with families requested from outside. -/
def grammarOf (source : String) (requests : List (FamilyKind × String)) : Grammar :=
  match (Grammar.parse source).result with
  | .ok parsed => parsed.grammar.request requests
  | .error _ => {}

variable {V : Type} [SemanticValue V]

def registration (s : Sample V) : Registration V Unit := Definition.register s.grammar s.handler

def definition (s : Sample V) : Definition V :=
  { start := s.grammar.start
    tokens := s.grammar.tokens.names
    precedence := s.grammar.precedence
    registry := s.registration.registry }

/-- A parser that follows a script. If hooks are tracked, its lexer takes braces as scopes. -/
def parser (s : Sample V) (script : List Step) (hooks : Hooks) : Script.Parser V :=
  { definition := s.definition
    reader :=
      { classify := s.classify
        lift := s.lift
        braces := hooks ≠ .ignored }
    script
    source := { hooks } }

end Sample

end ParserGenerator
