/-!
# Positions in a source text

Lines are counted by line feeds and columns in bytes of the UTF-8 encoding; both start at one.
The offset is the number of bytes before the position.
-/

namespace ParserGenerator.Text

/-- The number of bytes of a text in UTF-8. -/
def byteLength : List Char → Nat
  | [] => 0
  | c :: rest => c.utf8Size + byteLength rest

@[simp] theorem byteLength_append (a b : List Char) :
    byteLength (a ++ b) = byteLength a + byteLength b := by
  induction a with
  | nil => simp [byteLength]
  | cons c rest ih => simp [byteLength, ih, Nat.add_assoc]

structure Position where
  offset : Nat
  line : Nat
  column : Nat
deriving DecidableEq, Inhabited

namespace Position

def start : Position := ⟨0, 1, 1⟩

/-- The position after one character. -/
def step (p : Position) (c : Char) : Position :=
  if c = '\n' then ⟨p.offset + c.utf8Size, p.line + 1, 1⟩
  else ⟨p.offset + c.utf8Size, p.line, p.column + c.utf8Size⟩

/-- The position after a text. -/
def advance (p : Position) (text : List Char) : Position := text.foldl step p

/-- The `line:column` form that starts every message about a place in a source. -/
def label (p : Position) : String := s!"{p.line}:{p.column}"

@[simp] theorem advance_nil (p : Position) : p.advance [] = p := rfl

@[simp] theorem advance_cons (p : Position) (c : Char) (cs : List Char) :
    p.advance (c :: cs) = (p.step c).advance cs := rfl

@[simp] theorem advance_append (p : Position) (a b : List Char) :
    p.advance (a ++ b) = (p.advance a).advance b := List.foldl_append

end Position

end ParserGenerator.Text
