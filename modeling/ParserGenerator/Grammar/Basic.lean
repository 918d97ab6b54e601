import ParserGenerator.Family
import ParserGenerator.Grammar.NameSet
import ParserGenerator.Symbols

/-!
# Grammars

What a grammar file says: the start symbol, precedence groups, tokens, the base symbols of the
three families, the rules with their actions, and the code to copy before and after them.
-/

namespace ParserGenerator

inductive Assoc where
  | left
  | right
  | nonassoc
deriving DecidableEq, Inhabited

namespace Assoc

def label : Assoc → String
  | .left => "left"
  | .right => "right"
  | .nonassoc => "nonassoc"

/-- The declaration that opens a precedence group in a grammar file. -/
def directive (a : Assoc) : String := "%" ++ a.label

/-- The name of the associativity in generated code. -/
def path : Assoc → String
  | .left => "Assoc::Left"
  | .right => "Assoc::Right"
  | .nonassoc => "Assoc::Nonassoc"

end Assoc

structure PrecedenceGroup where
  assoc : Assoc
  tokens : List String
deriving DecidableEq, Inhabited

/-- One alternative of a nonterminal: its name, its production as a text `lhs : symbols`, and the
body of its action. -/
structure Rule where
  name : String
  production : String
  code : String
deriving DecidableEq, Inhabited

namespace Rule

def handler (r : Rule) : String := "p_" ++ r.name

/-- The left-hand side: what stands before the first colon. -/
def lhs (r : Rule) : String :=
  match Text.cutAt ':' r.production.toList with
  | some (before, _) => String.ofList (Text.trim before)
  | none => String.ofList (Text.trim r.production.toList)

/-- The text after the first colon. -/
def rhs (r : Rule) : String :=
  match Text.cutAt ':' r.production.toList with
  | some (_, after) => String.ofList after
  | none => ""

/-- The symbols after the colon, without the precedence marks. -/
def symbols (r : Rule) : List String := (Symbols.split r.rhs).filter (· ≠ Symbols.precMark)

end Rule

/-- The base symbols of each kind of family. -/
structure FamilySets where
  optional : NameSet := .empty
  list : NameSet := .empty
  string : NameSet := .empty
deriving DecidableEq, Inhabited

namespace FamilySets

def get (sets : FamilySets) : FamilyKind → NameSet
  | .optional => sets.optional
  | .list => sets.list
  | .string => sets.string

def insert (sets : FamilySets) (kind : FamilyKind) (base : String) : FamilySets :=
  match kind with
  | .optional => { sets with optional := sets.optional.insert base }
  | .list => { sets with list := sets.list.insert base }
  | .string => { sets with string := sets.string.insert base }

end FamilySets

structure Grammar where
  start : String := ""
  /-- Precedence groups, lowest priority first. -/
  precedence : List PrecedenceGroup := []
  tokens : NameSet := .empty
  families : FamilySets := {}
  rules : List Rule := []
  prologue : List String := []
  epilogue : Option String := none
deriving DecidableEq, Inhabited

namespace Grammar

/-- The rules of a nonterminal, in order of declaration. -/
def rulesOf (g : Grammar) (lhs : String) : List Rule := g.rules.filter (·.lhs = lhs)

def defines (g : Grammar) (lhs : String) : Bool := g.rules.any (·.lhs = lhs)

/-- Adds base symbols to the family sets. -/
def request (g : Grammar) (requests : List (FamilyKind × String)) : Grammar :=
  { g with families := requests.foldl (fun sets r ↦ sets.insert r.1 r.2) g.families }

/-! ## Dumps -/

/-- A line that starts with a head and lists names, each after a space. -/
def nameLine (head : String) (names : List String) : String :=
  head ++ Text.concat (names.map (" " ++ ·)) ++ "\n"

/-- Like `nameLine`, but without names there is no line. -/
def nameLineIfAny (head : String) (names : List String) : String :=
  if names.isEmpty then "" else nameLine head names

def ruleLine (r : Rule) : String :=
  r.name ++ " => " ++ r.production ++
    (if Text.isBlankText r.code.toList then "" else " \x7b .. \x7d") ++ "\n"

/-- A readable listing of everything but the code. -/
def dump (g : Grammar) : String :=
  "%start " ++ g.start ++ "\n" ++
  nameLineIfAny "%token" g.tokens.names ++
  Text.concat (g.precedence.map fun group ↦ nameLine group.assoc.directive group.tokens) ++
  Text.concat (FamilyKind.all.map fun kind ↦
    nameLineIfAny ("## " ++ kind.label ++ ":") (g.families.get kind).names) ++
  "%%\n" ++
  Text.concat (g.rules.map ruleLine)

end Grammar

end ParserGenerator
