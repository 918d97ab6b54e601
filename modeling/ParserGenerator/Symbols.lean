import ParserGenerator.Text.Blank
import ParserGenerator.Text.Lines

/-!
# Symbols of a right-hand side

Symbols are separated by white space. A symbol that starts with a quote runs to the next such
quote, blanks included, and to the end of the text if there is none.
-/

namespace ParserGenerator.Symbols

open Text

def isQuote (c : Char) : Bool := c == '\'' || c == '"'

/-- The symbol that starts with `c`, and the text after it. -/
def take (c : Char) (rest : List Char) : List Char × List Char :=
  if isQuote c then
    match rest.dropWhile (· != c) with
    | [] => (c :: rest, [])
    | _ :: after => (c :: rest.takeWhile (· != c) ++ [c], after)
  else (c :: rest.takeWhile (!isBlank ·), rest.dropWhile (!isBlank ·))

/-- A symbol and the text after it are the text it was taken from. -/
theorem append_take (c : Char) (rest : List Char) :
    (take c rest).1 ++ (take c rest).2 = c :: rest := by
  fun_cases take c rest with
  | case1 hc h => simp
  | case2 hc x after h =>
    have happ := List.takeWhile_append_dropWhile (p := (· != c)) (l := rest)
    have hx : x = c := by
      have := List.head?_dropWhile_not (· != c) rest
      simpa [h] using this
    rw [h, hx] at happ
    simpa using happ
  | case3 hc => simp

theorem length_take (c : Char) (rest : List Char) : (take c rest).2.length ≤ rest.length := by
  have happ := congrArg List.length (append_take c rest)
  have hpos : 0 < (take c rest).1.length := by
    fun_cases take c rest <;> simp
  simp only [List.length_append, List.length_cons] at happ
  omega

theorem length_of_trimStart {cs rest : List Char} {c : Char} (h : trimStart cs = c :: rest) :
    rest.length < cs.length := by
  have hle : (trimStart cs).length ≤ cs.length := (List.dropWhile_sublist isBlank).length_le
  simp only [h, List.length_cons] at hle
  omega

/-- The symbols of a text, from left to right. -/
def ofChars (cs : List Char) : List (List Char) :=
  match _h : trimStart cs with
  | [] => []
  | c :: rest => (take c rest).1 :: ofChars (take c rest).2
termination_by cs.length
decreasing_by
  exact Nat.lt_of_le_of_lt (length_take c rest) (length_of_trimStart ‹_›)

def split (text : String) : List String := (ofChars text.toList).map String.ofList

/-- The sign that announces a borrowed precedence. -/
def precMark : String := "%prec"

end ParserGenerator.Symbols
