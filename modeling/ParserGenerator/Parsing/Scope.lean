import ParserGenerator.Parsing.Error

/-!
# Scopes

A stack of scopes, of which the outermost is always open. A scope says of each name declared in it
whether the name is a type; the innermost declaration of a name counts.
-/

namespace ParserGenerator

/-- The names of a scope in order of declaration; `true` marks a type. -/
abbrev Scope := List (String × Bool)

structure ScopeStack where
  innermost : Scope := []
  /-- The scopes around the innermost one, from the inside to the outside. -/
  outer : List Scope := []
deriving DecidableEq, Inhabited

namespace ScopeStack

def depth (s : ScopeStack) : Nat := s.outer.length + 1

/-- All open scopes, the innermost first. -/
def scopes (s : ScopeStack) : List Scope := s.innermost :: s.outer

def push (s : ScopeStack) : ScopeStack := ⟨[], s.scopes⟩

/-- Leaves the innermost scope unless it is the outermost one. -/
def pop (s : ScopeStack) : ScopeStack :=
  match s.outer with
  | [] => s
  | next :: rest => ⟨next, rest⟩

/-- The complaint about a name that is declared as the other kind of thing in the same scope. -/
def redeclared (name : String) (isType : Bool) : String :=
  let (now, before) := if isType then ("Typedef", "non-typedef") else ("Non-typedef", "typedef")
  now ++ " " ++ Text.quoteString name ++ " previously declared as " ++ before ++ " in this scope"

/-- Declares a name in the innermost scope. -/
def declare (s : ScopeStack) (name : String) (isType : Bool) (coord : Coord) :
    Except ParseError ScopeStack :=
  match s.innermost.lookup name with
  | some before =>
    if before = isType then .ok s else .error (.syntactic coord (redeclared name isType))
  | none => .ok { s with innermost := s.innermost ++ [(name, isType)] }

/-- The innermost declaration of the name is a type. -/
def isType (s : ScopeStack) (name : String) : Bool :=
  (s.scopes.findSome? (·.lookup name)).getD false

end ScopeStack

/-- The scopes that a lexer reports to, if it reports to any. -/
inductive Hooks where
  | ignored
  | tracked (scopes : ScopeStack)
deriving DecidableEq, Inhabited

namespace Hooks

def beginScope : Hooks → Hooks
  | .ignored => .ignored
  | .tracked s => .tracked s.push

def endScope : Hooks → Hooks
  | .ignored => .ignored
  | .tracked s => .tracked s.pop

def isType (name : String) : Hooks → Bool
  | .ignored => false
  | .tracked s => s.isType name

end Hooks

end ParserGenerator
