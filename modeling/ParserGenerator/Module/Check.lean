import ParserGenerator.Grammar.Basic
import ParserGenerator.Template.Basic

/-!
# Checks before generation

A grammar can be turned into a module if it has a start symbol, no two rules share a handler, no
rule defines a name that a family derives, and every symbol that looks like a derived name comes
from a registered family or is defined by a rule. The first problem in this order is reported.
-/

namespace ParserGenerator

open Template (TemplateError)

inductive GenerateError where
  | missingStart
  | duplicateHandler (name : String)
  /-- A rule defines the name that a family derives from `base`. -/
  | derivedCollision (name base : String) (kind : FamilyKind)
  /-- A rule uses the name that a family would derive from `base`, which is not registered. -/
  | unregistered (rule symbol base : String) (kind : FamilyKind)
  | template (e : TemplateError)
deriving DecidableEq

namespace GenerateError

def message : GenerateError → String
  | .missingStart => "no start symbol: the grammar has neither %start nor any rule"
  | .duplicateHandler name => s!"handler p_{name} is defined more than once"
  | .derivedCollision name base kind =>
    s!"rule {name} collides with the {kind.label} rule derived from {base}"
  | .unregistered rule symbol base kind =>
    s!"rule {rule} uses {symbol}, but {base} is not registered as a {kind.label} rule " ++
      "and no rule defines it"
  | .template _ => "invalid template"

/-- The messages of the error behind this one, if there is one. -/
def causes : GenerateError → List String
  | .template e => [e.message]
  | _ => []

end GenerateError

namespace Grammar

/-- The first name that is among the names seen or stands in the list before. -/
def firstRepeated (seen : List String) : List String → Option String
  | [] => none
  | name :: rest => if name ∈ seen then some name else firstRepeated (name :: seen) rest

/-- The first derived name that a rule defines, going through the kinds in order. -/
def firstCollision (g : Grammar) : Option GenerateError :=
  FamilyKind.all.findSome? fun kind ↦
    (g.families.get kind).names.findSome? fun base ↦
      if g.defines (kind.derived base) then some (.derivedCollision (kind.derived base) base kind)
      else none

/-- Tokens and quoted symbols are never derived names. -/
def isTerminal (g : Grammar) (symbol : String) : Bool :=
  symbol.toList.head?.any Symbols.isQuote || symbol ∈ g.tokens

/-- The first kind for which a symbol looks derived, but has no registered base and no rule. -/
def unregistered? (g : Grammar) (rule symbol : String) : Option GenerateError :=
  FamilyKind.all.findSome? fun kind ↦
    match kind.base? symbol with
    | some base =>
      if base ∈ g.families.get kind || g.defines symbol then none
      else some (.unregistered rule symbol base kind)
    | none => none

def firstUnregistered (g : Grammar) : Option GenerateError :=
  g.rules.findSome? fun rule ↦
    rule.symbols.findSome? fun symbol ↦
      if g.isTerminal symbol then none else g.unregistered? rule.name symbol

/-- The first problem of a grammar, if there is one. -/
def problem? (g : Grammar) : Option GenerateError :=
  if g.start = "" then some .missingStart
  else
    match firstRepeated [] (g.rules.map Rule.name) with
    | some name => some (.duplicateHandler name)
    | none => g.firstCollision <|> g.firstUnregistered

end Grammar

end ParserGenerator
