import ParserGenerator.Event

/-!
# Reductions

A reduction has a slot for its result and a slot for the value of each symbol of the right-hand
side. A handler works on the slots; it crashes if it reaches for a slot that does not exist.
-/

namespace ParserGenerator

/-- What the values of a grammar have to offer: an empty value and sequences. -/
class SemanticValue (V : Type) where
  null : V
  isNull : V → Bool
  ofSeq : List V → V
  /-- The items of a sequence; other values have none. -/
  seq? : V → Option (List V)

export SemanticValue (null isNull ofSeq seq?)

/-- Slot zero is the result, the slots after it are the children. -/
structure Reduction (V : Type) where
  result : V
  children : List V

namespace Reduction

variable {V : Type}

def slots (r : Reduction V) : List V := r.result :: r.children

def size (r : Reduction V) : Nat := r.children.length + 1

def get? (r : Reduction V) (i : Nat) : Option V := r.slots[i]?

/-- Stores a value in a slot. -/
def put? (r : Reduction V) (i : Nat) (value : V) : Option (Reduction V) :=
  match i with
  | 0 => some { r with result := value }
  | i + 1 =>
    if i < r.children.length then some { r with children := r.children.set i value } else none

def set (r : Reduction V) (value : V) : Reduction V := { r with result := value }

variable [SemanticValue V]

def ofChildren (children : List V) : Reduction V := ⟨null, children⟩

/-- Moves a value out of its slot, which is empty afterwards. -/
def take? (r : Reduction V) (i : Nat) : Option (V × Reduction V) :=
  match r.get? i, r.put? i null with
  | some value, some after => some (value, after)
  | _, _ => none

end Reduction

/-- A handler leaves the slots in a new state and may report something, or it crashes. -/
abbrev Handler (V : Type) := Reduction V → Option (Reduction V × List Event)

namespace Handler

variable {V : Type}

/-- The result and the reports of a handler on the values of a right-hand side. -/
def run [SemanticValue V] (h : Handler V) (children : List V) : Option (V × List Event) :=
  (h (.ofChildren children)).map fun out ↦ (out.1.result, out.2)

/-- A handler that reports nothing and computes its result from the slots. -/
def compute (f : Reduction V → Option V) : Handler V := fun r ↦ (f r).map fun v ↦ (r.set v, [])

/-- Leaves the result empty. -/
def noop : Handler V := fun r ↦ some (r, [])

variable [SemanticValue V]

/-- Moves the value of a slot to the result. -/
def move (i : Nat) : Handler V := fun r ↦ (r.take? i).map fun out ↦ (out.2.set out.1, [])

def first : Handler V := move 1

/-- Moves the last slot to the result; without children that is the result itself. -/
def last : Handler V := fun r ↦ move (r.size - 1) r

/-- The sequence of all children. -/
def collect : Handler V := compute fun r ↦ some (ofSeq r.children)

/-! ## Handlers of the families -/

/-- The absence of an optional symbol. -/
def absent : Handler V := compute fun _ ↦ some null

/-- The presence of an optional symbol. -/
def present : Handler V := move 1

/-- A sequence of one item. -/
def single : Handler V := fun r ↦
  (r.take? 1).map fun out ↦ (out.2.set (ofSeq [out.1]), [])

/-- The items of a tail, and a report if it is not a sequence. -/
def tailItems (tail : V) : List V × List Event :=
  match seq? tail with
  | some items => (items, [])
  | none => ([tail], [.tailNotSequence])

/-- Puts the first child in front of the items of the last one. -/
def cons : Handler V := fun r ↦
  match r.take? (r.size - 1) with
  | none => none
  | some (tail, r) =>
    match r.take? 1 with
    | none => none
    | some (head, r) =>
      let (items, events) := tailItems tail
      some (r.set (ofSeq (head :: items)), events)

end Handler

/-! ## Plain values -/

/-- Values without a grammar of their own. -/
inductive Value where
  | null
  | atom (text : String)
  | seq (items : List Value)
deriving Inhabited

namespace Value

instance : SemanticValue Value where
  null := .null
  isNull
    | .null => true
    | _ => false
  ofSeq := .seq
  seq?
    | .seq items => some items
    | _ => none

mutual

def describe : Value → String
  | .null => "Null"
  | .atom text => "Atom(" ++ Text.quoteString text ++ ")"
  | .seq items => "Seq([" ++ describeAll items ++ "])"

/-- The items with a comma between neighbours. -/
def describeAll : List Value → String
  | [] => ""
  | [v] => describe v
  | v :: w :: rest => describe v ++ ", " ++ describeAll (w :: rest)

end

end Value

def Reduction.describe (r : Reduction Value) : String :=
  "[" ++ Value.describeAll r.slots ++ "]"

end ParserGenerator
