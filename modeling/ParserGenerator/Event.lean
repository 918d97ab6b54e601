import ParserGenerator.Family
import ParserGenerator.Lexer.Stream

/-!
# Events

What the library reports while it works, beside its results. Every event has a severity and a
message.
-/

namespace ParserGenerator

inductive Severity where
  | warn
  | debug
  | trace
deriving DecidableEq, Inhabited

namespace Severity

/-- A higher rank is less severe. -/
def rank : Severity → Nat
  | .warn => 0
  | .debug => 1
  | .trace => 2

def label : Severity → String
  | .warn => "WARN"
  | .debug => "DEBUG"
  | .trace => "TRACE"

end Severity

inductive Event where
  /-- An illegal character was left out. -/
  | illegalCharacter (fault : Lexer.Fault)
  | lexeme (lx : Lexeme)
  /-- An action before the end of an alternative was dropped. -/
  | droppedAction (line : Nat) (rule : String)
  | rule (name production : String)
  /-- A family set of a grammar got a new base symbol. -/
  | familyRequested (kind : FamilyKind) (base : String)
  /-- The first rule became the start symbol. -/
  | startAssumed (name : String)
  | familyInstalled (family : Family) (base : String)
  | productionDefined (name production : String)
  | reduction (name production : String)
  /-- The last child of a list reduction is not a sequence. -/
  | tailNotSequence
deriving DecidableEq

/-- The form of a family in messages. -/
def Family.describe : Family → String
  | .optional => "Optional"
  | .list delimiter => "List \x7b delimiter: " ++ Text.quoteString delimiter ++ " \x7d"
  | .string => "String"

namespace Event

def severity : Event → Severity
  | .illegalCharacter _ | .droppedAction _ _ | .tailNotSequence => .warn
  | .familyRequested _ _ | .startAssumed _ | .familyInstalled _ _ => .debug
  | .lexeme _ | .rule _ _ | .productionDefined _ _ | .reduction _ _ => .trace

def message : Event → String
  | .illegalCharacter fault => fault.message
  | .lexeme lx =>
    lx.pos.label ++ ": " ++ lx.token.kind ++ " " ++ Text.quoteString lx.token.text
  | .droppedAction line name =>
    s!"line {line}: mid-rule action in {name} is not supported and is dropped"
  | .rule name production => s!"rule {name}: {production}"
  | .familyRequested kind base => s!"register {kind.label} family for {base}"
  | .startAssumed name => s!"no %start given; using {name}"
  | .familyInstalled family base =>
    s!"install {family.describe} family for {base} as {family.derived base}"
  | .productionDefined name production => s!"define {name}: {production}"
  | .reduction name production => s!"reduce {name}: {production}"
  | .tailNotSequence => "list tail is not a sequence; treating it as a single item"

/-- The events at a level of severity or above it. -/
def upTo (level : Severity) (events : List Event) : List Event :=
  events.filter fun e ↦ e.severity.rank ≤ level.rank

end Event

/-- The events of one pull: its faults and then its lexeme. -/
def Lexer.Pull.events (p : Lexer.Pull) : List Event :=
  p.faults.map .illegalCharacter ++
    match p.item? with
    | some (.lexeme lx) => [.lexeme lx]
    | _ => []

end ParserGenerator
