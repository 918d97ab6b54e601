import ParserGenerator.Symbols
import ParserGenerator.Text.Quoted

/-!
# Productions

A production is read from a line `lhs : symbols`. A pair `%prec NAME` among the symbols names the
terminal whose precedence the production borrows and is not part of the right-hand side.
-/

namespace ParserGenerator

inductive DefinitionError where
  | malformed (name line : String)
  /-- Another production is registered under the name. -/
  | duplicate (name existing : String)
  | unknown (name : String)
  | arity (name : String) (expected actual : Nat)
deriving DecidableEq

def DefinitionError.message : DefinitionError → String
  | .malformed name line => s!"malformed production `{line}' for handler {name}"
  | .duplicate name existing =>
    s!"duplicate production rule {name} (already defined as `{existing}')"
  | .unknown name => s!"unknown production rule {name}"
  | .arity name expected actual =>
    s!"{name} expects {expected} values, but {actual} were given"

structure Production where
  /-- The name of the handler. -/
  name : String
  lhs : String
  rhs : List String
  prec : Option String
deriving DecidableEq, Inhabited

namespace Production

/-- Separates the right-hand side from the precedence. The last pair wins; a mark at the end has no
name to take. -/
def splitPrec : List String → Option (List String × Option String)
  | [] => some ([], none)
  | [symbol] => if symbol = Symbols.precMark then none else some ([symbol], none)
  | symbol :: next :: rest =>
    if symbol = Symbols.precMark then
      (splitPrec rest).map fun s ↦ (s.1, s.2 <|> some next)
    else (splitPrec (next :: rest)).map fun s ↦ (symbol :: s.1, s.2)

/-- A left-hand side is not empty and has no blanks inside. -/
def isSymbol (cs : List Char) : Bool := !cs.isEmpty && !cs.any Text.isBlank

def parse (name line : String) : Except DefinitionError Production :=
  match Text.cutAt ':' line.toList with
  | none => .error (.malformed name line)
  | some (before, after) =>
    let lhs := Text.trim before
    if isSymbol lhs then
      match splitPrec ((Symbols.ofChars after).map String.ofList) with
      | some (rhs, prec) => .ok ⟨name, String.ofList lhs, rhs, prec⟩
      | none => .error (.malformed name line)
    else .error (.malformed name line)

/-- The production as a line that reads back. -/
def text (p : Production) : String :=
  p.lhs ++ " :" ++ Text.concat (p.rhs.map (" " ++ ·)) ++
    match p.prec with
    | some prec => " " ++ Symbols.precMark ++ " " ++ prec
    | none => ""

/-- Two productions agree in everything but the name. -/
def sameShape (p q : Production) : Bool := p.lhs = q.lhs ∧ p.rhs = q.rhs ∧ p.prec = q.prec

def describe (p : Production) : String :=
  let prec := match p.prec with
    | some prec => "Some(" ++ Text.quoteString prec ++ ")"
    | none => "None"
  "Production \x7b name: " ++ Text.quoteString p.name ++ ", lhs: " ++ Text.quoteString p.lhs ++
    ", rhs: [" ++ Text.joinWith ", " (p.rhs.map Text.quoteString) ++ "], prec: " ++ prec ++
    ", .. \x7d"

end Production

end ParserGenerator
