/-!
# White space and trimming

The characters that separate symbols and that trimming removes are those with the Unicode
`White_Space` property. Texts are lists of characters here; the callers convert from and to strings.
-/

namespace ParserGenerator.Text

/-- Closed ranges of code points. -/
abbrev Ranges := List (Nat × Nat)

def Ranges.holds (ranges : Ranges) (n : Nat) : Bool :=
  ranges.any fun r ↦ r.1 ≤ n && n ≤ r.2

/-- The twenty-five code points with the `White_Space` property. -/
def blanks : Ranges :=
  [(0x09, 0x0d), (0x20, 0x20), (0x85, 0x85), (0xa0, 0xa0), (0x1680, 0x1680), (0x2000, 0x200a),
   (0x2028, 0x2029), (0x202f, 0x202f), (0x205f, 0x205f), (0x3000, 0x3000)]

def isBlank (c : Char) : Bool := blanks.holds c.toNat

def trimStart (cs : List Char) : List Char := cs.dropWhile isBlank

def trimEnd (cs : List Char) : List Char := (cs.reverse.dropWhile isBlank).reverse

def trim (cs : List Char) : List Char := trimEnd (trimStart cs)

/-- A text is blank when nothing is left of it after trimming. -/
def isBlankText (cs : List Char) : Bool := cs.all isBlank

/-- Removes every leading and trailing occurrence of one character. -/
def trimChar (c : Char) (cs : List Char) : List Char :=
  ((cs.dropWhile (· == c)).reverse.dropWhile (· == c)).reverse

end ParserGenerator.Text
