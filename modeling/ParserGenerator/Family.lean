import ParserGenerator.Text.Lines

/-!
# Rule families

A family derives a new nonterminal from a base symbol: an optional occurrence, a delimited list or
an undelimited string of occurrences. A grammar file chooses among the three kinds; the delimiter
of a list is fixed when the family is installed.
-/

namespace ParserGenerator

inductive FamilyKind where
  | optional
  | list
  | string
deriving DecidableEq, Inhabited

namespace FamilyKind

/-- All kinds, in the order in which checks go through them. -/
def all : List FamilyKind := [.optional, .list, .string]

def suffix : FamilyKind → String
  | .optional => "_opt"
  | .list => "_list"
  | .string => "_string"

/-- The short name of a kind in messages and dumps. -/
def label : FamilyKind → String
  | .optional => "opt"
  | .list => "list"
  | .string => "string"

/-- The nonterminal derived from a base symbol. -/
def derived (kind : FamilyKind) (base : String) : String := base ++ kind.suffix

/-- The base symbol that a derived name would come from. A bare suffix has no base. -/
def base? (kind : FamilyKind) (symbol : String) : Option String :=
  match Text.stripSuffix? kind.suffix.toList symbol.toList with
  | none | some [] => none
  | some base => some (String.ofList base)

end FamilyKind

inductive Family where
  | optional
  | list (delimiter : String)
  | string
deriving DecidableEq, Inhabited

namespace Family

/-- Lists are delimited by a comma token unless another delimiter is asked for. -/
def commaList : Family := .list "','"

def kind : Family → FamilyKind
  | .optional => .optional
  | .list _ => .list
  | .string => .string

def derived (family : Family) (base : String) : String := family.kind.derived base

/-- The symbol between two items, if there is one; an empty delimiter is none. -/
def delimiter? : Family → Option String
  | .list d => if d = "" then none else some d
  | _ => none

/-- The family that a shorthand of a grammar file stands for. -/
def ofKind : FamilyKind → Family
  | .optional => .optional
  | .list => commaList
  | .string => .string

end Family

end ParserGenerator
