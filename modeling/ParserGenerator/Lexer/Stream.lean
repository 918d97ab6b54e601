import ParserGenerator.Lexer.Segment

/-!
# The lexeme stream

Items are pulled from a cursor one at a time. A pull passes over blanks and comments, records each
illegal character as a fault and goes on after it, and stops at a token or at a failure. Whether a
divider closes the last section is decided anew for every pull, so a reader may raise that flag
between two pulls.
-/

namespace ParserGenerator.Lexer

open Text

/-- An illegal character, which the lexer leaves out. -/
structure Fault where
  char : Char
  pos : Position
deriving DecidableEq

namespace Fault

def reason (f : Fault) : String := "Illegal character " ++ quoteChar f.char

def message (f : Fault) : String := f.pos.label ++ ": " ++ f.reason

end Fault

/-- A text that no token can be made of. -/
structure Failure where
  kind : FailureKind
  pos : Position
deriving DecidableEq

def Failure.message (e : Failure) : String := e.pos.label ++ ": " ++ e.kind.message

inductive Item where
  | lexeme (lx : Lexeme)
  | failure (e : Failure)
deriving DecidableEq

/-- The text still to be read and the position where it starts. -/
structure Cursor where
  rest : List Char
  pos : Position
deriving DecidableEq

def Cursor.ofString (source : String) : Cursor := ⟨source.toList, .start⟩

/-- The item that a segment gives rise to, if any. -/
def Segment.item? (pos : Position) : Segment → Option Item
  | .token t => some (.lexeme ⟨t, pos⟩)
  | .failure kind _ => some (.failure ⟨kind, pos⟩)
  | _ => none

/-- The faults that a segment gives rise to: one for an illegal character. -/
def Segment.faults (pos : Position) : Segment → List Fault
  | .illegal c => [⟨c, pos⟩]
  | _ => []

/-- What one pull yields: the faults on the way, the item unless the text has ended, and the
cursor after it. -/
structure Pull where
  faults : List Fault
  item? : Option Item
  cursor : Cursor
deriving DecidableEq

/-- Pulls the next item of the text `rest` that starts at `pos`. -/
def pullFrom (closing : Bool) (rest : List Char) (pos : Position) : Pull :=
  match rest with
  | [] => ⟨[], none, ⟨[], pos⟩⟩
  | c :: cs =>
    let seg := (Segment.first closing c cs).1
    let after := (Segment.first closing c cs).2
    match seg.item? pos with
    | some item => ⟨[], some item, ⟨after, pos.advance seg.text⟩⟩
    | none =>
      let later := pullFrom closing after (pos.advance seg.text)
      { later with faults := seg.faults pos ++ later.faults }
termination_by rest.length
decreasing_by exact Segment.length_first closing c cs

def Cursor.pull (closing : Bool) (cur : Cursor) : Pull := pullFrom closing cur.rest cur.pos

/-- A pull that yields an item makes the text shorter. -/
theorem length_pullFrom {closing : Bool} {rest : List Char} {pos : Position} {item : Item}
    (h : (pullFrom closing rest pos).item? = some item) :
    (pullFrom closing rest pos).cursor.rest.length < rest.length := by
  fun_induction pullFrom closing rest pos with
  | case1 pos => simp at h
  | case2 pos c cs seg after item' hitem => exact Segment.length_first closing c cs
  | case3 pos c cs seg after hitem later ih =>
    exact Nat.lt_trans (ih h) (Segment.length_first closing c cs)

/-! ## Reading a whole text -/

/-- At most `n` pulls from a cursor after the items `seen`; the schedule decides from the items so
far whether a divider closes the last section. -/
def pulls (schedule : List Item → Bool) : Nat → List Item → Cursor → List Pull
  | 0, _, _ => []
  | n + 1, seen, cur =>
    let p := cur.pull (schedule seen)
    match p.item? with
    | none => [p]
    | some item => p :: pulls schedule n (seen ++ [item]) p.cursor

/-- Reads a source to its end, or until `limit` items have been pulled. Every item takes up at least
one character, so one pull more than there are characters reaches the end. -/
def read (schedule : List Item → Bool) (limit : Option Nat) (source : String) : List Pull :=
  pulls schedule (limit.getD (source.length + 1)) [] (.ofString source)

/-! ## Callbacks -/

/-- A pull that tells a callback of each illegal character before it is recorded. The callback keeps
a state of its own. -/
def pullFromWith {σ : Type} (onFault : σ → Fault → σ) (closing : Bool) (rest : List Char)
    (pos : Position) (s : σ) : Pull × σ :=
  match rest with
  | [] => (⟨[], none, ⟨[], pos⟩⟩, s)
  | c :: cs =>
    let seg := (Segment.first closing c cs).1
    let after := (Segment.first closing c cs).2
    match seg.item? pos with
    | some item => (⟨[], some item, ⟨after, pos.advance seg.text⟩⟩, s)
    | none =>
      let told := (seg.faults pos).foldl onFault s
      let later := pullFromWith onFault closing after (pos.advance seg.text) told
      ({ later.1 with faults := seg.faults pos ++ later.1.faults }, later.2)
termination_by rest.length
decreasing_by exact Segment.length_first closing c cs

def pullsWith {σ : Type} (onFault : σ → Fault → σ) (schedule : List Item → Bool) :
    Nat → List Item → Cursor → σ → List Pull × σ
  | 0, _, _, s => ([], s)
  | n + 1, seen, cur, s =>
    let p := pullFromWith onFault (schedule seen) cur.rest cur.pos s
    match p.1.item? with
    | none => ([p.1], p.2)
    | some item =>
      let later := pullsWith onFault schedule n (seen ++ [item]) p.1.cursor p.2
      (p.1 :: later.1, later.2)

/-- Reads a source as `read` does, with a callback for illegal characters. -/
def readWith {σ : Type} (onFault : σ → Fault → σ) (schedule : List Item → Bool)
    (limit : Option Nat) (source : String) (s : σ) : List Pull × σ :=
  pullsWith onFault schedule (limit.getD (source.length + 1)) [] (.ofString source) s

/-! ## Summaries -/

/-- The items of a reading. -/
def itemsOf (reading : List Pull) : List Item := reading.filterMap Pull.item?

/-- The faults of a reading. -/
def faultsOf (reading : List Pull) : List Fault := reading.flatMap Pull.faults

/-- The place up to which lines have been counted after a pull: the end of the last token or illegal
character, or the start of the last failure. -/
def Pull.markAfter (mark : Position) (p : Pull) : Position :=
  match p.item?, p.faults.getLast? with
  | some (.lexeme _), _ => p.cursor.pos
  | some (.failure e), _ => e.pos
  | none, some f => f.pos.step f.char
  | none, none => mark

def markOf (reading : List Pull) : Position := reading.foldl Pull.markAfter .start

def Fault.describe (f : Fault) : String :=
  "LexFault \x7b message: " ++ quoteString f.reason ++
    s!", line: {f.pos.line}, column: {f.pos.column} \x7d"

/-- A summary of where a reading stands: the place counted up to and the faults so far. -/
def describe (reading : List Pull) : String :=
  let faults := joinWith ", " ((faultsOf reading).map Fault.describe)
  s!"Lexer \x7b pos: {(markOf reading).offset}, line: {(markOf reading).line}, " ++
    "faults: [" ++ faults ++ "], .. \x7d"

/-- A divider never closes the last section. -/
def neverClosing : List Item → Bool := fun _ ↦ false

/-- Every divider closes the last section. -/
def alwaysClosing : List Item → Bool := fun _ ↦ true

/-- A divider closes the last section if there was one before. -/
def closingAfterDivider (items : List Item) : Bool :=
  items.any fun
    | .lexeme ⟨.divider _, _⟩ => true
    | _ => false

end ParserGenerator.Lexer
