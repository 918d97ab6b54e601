import ParserGenerator.Grammar.Basic
import ParserGenerator.Registry.Production
import ParserGenerator.Registry.Reduction

/-!
# The registry of productions

Productions are registered once under the name of their handler. Registering the same production
again changes nothing, and another production under the same name is refused. A family is installed
by registering its two productions; if the second is refused, the first stays.
-/

namespace ParserGenerator

/-- A production with the handler that reduces it. -/
structure Registered (V : Type) where
  production : Production
  handler : Handler V

structure Registry (V : Type) where
  /-- The productions in order of registration. -/
  entries : List (Registered V) := []
  /-- The families that have been installed, with their bases. -/
  installed : List (String × Family) := []

/-- The outcome of a registration: the registry after it, what was reported, and the answer. -/
structure Registration (V α : Type) where
  registry : Registry V
  events : List Event
  answer : Except DefinitionError α

/-- Goes on with the registry of a successful registration. -/
def Registration.andThen {V α β : Type} (r : Registration V α)
    (next : Registry V → Registration V β) : Registration V β :=
  match r.answer with
  | .error e => ⟨r.registry, r.events, .error e⟩
  | .ok _ =>
    let after := next r.registry
    { after with events := r.events ++ after.events }

/-- Why a computation has no value: an error of the given type, or a crash. -/
inductive Stop (ε : Type) where
  | error (e : ε)
  | crash
deriving DecidableEq

namespace Registry

variable {V : Type}

def productions (reg : Registry V) : List Production := reg.entries.map (·.production)

def size (reg : Registry V) : Nat := reg.entries.length

def find? (reg : Registry V) (name : String) : Option (Registered V) :=
  reg.entries.find? (·.production.name = name)

/-- The productions of a nonterminal. -/
def alternatives (reg : Registry V) (lhs : String) : List Production :=
  reg.productions.filter (·.lhs = lhs)

def insert (reg : Registry V) (production : Production) (handler : Handler V) :
    Registration V Unit :=
  match reg.find? production.name with
  | some existing =>
    if existing.production.sameShape production then ⟨reg, [], .ok ()⟩
    else ⟨reg, [], .error (.duplicate production.name existing.production.text)⟩
  | none =>
    ⟨{ reg with entries := reg.entries ++ [⟨production, handler⟩] },
      [.productionDefined production.name production.text], .ok ()⟩

/-- Registers the production of a line. -/
def define (reg : Registry V) (name line : String) (handler : Handler V) : Registration V Unit :=
  match Production.parse name line with
  | .error e => ⟨reg, [], .error e⟩
  | .ok production => reg.insert production handler

/-- The name of the first or second production that a family derives. -/
def derivedHandler (derived : String) (number : Nat) : String := s!"p_{derived}_{number}"

/-- The productions of a family: the base case and the step. -/
def familyProductions (family : Family) (base : String) : Production × Production :=
  let derived := family.derived base
  let production (number : Nat) (rhs : List String) : Production :=
    ⟨derivedHandler derived number, derived, rhs, none⟩
  match family with
  | .optional => (production 1 [], production 2 [base])
  | .list _ | .string =>
    (production 1 [base], production 2 (base :: family.delimiter?.toList ++ [derived]))

variable [SemanticValue V]

def familyHandlers (family : Family) : Handler V × Handler V :=
  match family with
  | .optional => (.absent, .present)
  | .list _ | .string => (.single, .cons)

/-- Installs a family; the answer is `false` if it has been installed before. -/
def install (reg : Registry V) (base : String) (family : Family) : Registration V Bool :=
  if (base, family) ∈ reg.installed then ⟨reg, [], .ok false⟩
  else
    let productions := familyProductions family base
    let handlers : Handler V × Handler V := familyHandlers family
    let defined := (reg.insert productions.1 handlers.1).andThen fun reg ↦
      (reg.insert productions.2 handlers.2).andThen fun reg ↦
        ⟨{ reg with installed := reg.installed ++ [(base, family)] }, [], .ok true⟩
    { defined with events := .familyInstalled family base :: defined.events }

/-- Registers the productions of lines in order, up to the first error. -/
def defineAll (reg : Registry V) : List (String × String × Handler V) → Registration V Unit
  | [] => ⟨reg, [], .ok ()⟩
  | (name, line, handler) :: rest =>
    (reg.define name line handler).andThen fun reg ↦ reg.defineAll rest

/-- Installs families in order, up to the first error. -/
def installAll (reg : Registry V) : List (String × Family) → Registration V Unit
  | [] => ⟨reg, [], .ok ()⟩
  | (base, family) :: rest =>
    (reg.install base family).andThen fun reg ↦ reg.installAll rest

/-- The families of a grammar in the order of their installation: lists, strings, options. -/
def familiesOf (sets : FamilySets) : List (String × Family) :=
  sets.list.names.map (·, .commaList) ++ sets.string.names.map (·, .string) ++
    sets.optional.names.map (·, .optional)

/-- Registers lines and then the families of a grammar. -/
def load (reg : Registry V) (lines : List (String × String × Handler V)) (sets : FamilySets) :
    Registration V Unit :=
  (reg.defineAll lines).andThen fun reg ↦ reg.installAll (familiesOf sets)

/-- Runs the handler of a name on the values of a right-hand side. -/
def reduce (reg : Registry V) (name : String) (children : List V) :
    Except (Stop DefinitionError) V × List Event :=
  match reg.find? name with
  | none => (.error (.error (.unknown name)), [])
  | some entry =>
    if children.length = entry.production.rhs.length then
      let started := Event.reduction name entry.production.text
      match entry.handler.run children with
      | none => (.error .crash, [started])
      | some (value, events) => (.ok value, started :: events)
    else (.error (.error (.arity name entry.production.rhs.length children.length)), [])

/-- Reduces items by the productions of a derived nonterminal as a parser does: the base case on the
last item, and the step on each item before it, from right to left. -/
def foldItems (reg : Registry V) (derived : String) (delimiter : Option V) :
    List V → Except (Stop DefinitionError) V × List Event
  | [] => (.ok null, [])
  | [item] => reg.reduce (derivedHandler derived 1) [item]
  | item :: next :: rest =>
    match reg.foldItems derived delimiter (next :: rest) with
    | (.error e, events) => (.error e, events)
    | (.ok tail, events) =>
      let step := reg.reduce (derivedHandler derived 2) (item :: delimiter.toList ++ [tail])
      (step.1, events ++ step.2)

omit [SemanticValue V] in
def describe (reg : Registry V) : String :=
  let production (p : Production) := Text.quoteString p.name ++ ": " ++ p.describe
  let family (f : String × Family) :=
    "(" ++ Text.quoteString f.1 ++ ", " ++ f.2.describe ++ ")"
  "RuleSet \x7b productions: \x7b" ++ Text.joinWith ", " (reg.productions.map production) ++
    "\x7d, families: \x7b" ++ Text.joinWith ", " (reg.installed.map family) ++ "\x7d \x7d"

end Registry

end ParserGenerator
