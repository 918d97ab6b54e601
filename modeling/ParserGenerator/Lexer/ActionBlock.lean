import ParserGenerator.Text.Lines

/-!
# Action blocks

An action block runs to the brace that matches its opening one. Braces inside strings, character
literals and comments do not count, and neither does a brace after a backslash. The code is cut
into pieces from the left; only the pieces that are a brace change the nesting depth.
-/

namespace ParserGenerator.Lexer

open Text

inductive Piece where
  /-- A backslash and the character after it. -/
  | escape (c : Char)
  /-- A string in double quotes, given by what stands after the first quote. -/
  | string (tail : List Char)
  /-- A character literal, given by what stands after the first quote. -/
  | character (tail : List Char)
  | lineComment (body : List Char)
  | blockComment (body : List Char)
  | openBrace
  | closeBrace
  | other (c : Char)
deriving DecidableEq

def Piece.text : Piece → List Char
  | .escape c => ['\\', c]
  | .string tail => '"' :: tail
  | .character tail => '\'' :: tail
  | .lineComment body => '/' :: '/' :: body
  | .blockComment body => '/' :: '*' :: body ++ ['*', '/']
  | .openBrace => ['{']
  | .closeBrace => ['}']
  | .other c => [c]

/-- The rest of a string after its opening quote, up to the closing quote on the same line. A
backslash takes the next character with it, also a line feed. -/
def stringTail : List Char → Option (List Char × List Char)
  | [] => none
  | '"' :: rest => some (['"'], rest)
  | '\n' :: _ => none
  | '\\' :: c :: rest => (stringTail rest).map fun cut ↦ ('\\' :: c :: cut.1, cut.2)
  | c :: rest => (stringTail rest).map fun cut ↦ (c :: cut.1, cut.2)

/-- The rest of a character literal after its opening quote: one character and a quote, or an
escape of a one-byte character and anything up to a quote on the same line. -/
def characterTail : List Char → Option (List Char × List Char)
  | '\\' :: c :: rest =>
    if c.utf8Size = 1 then
      match rest.dropWhile fun x ↦ x != '\'' && x != '\n' with
      | '\'' :: after =>
        some ('\\' :: c :: (rest.takeWhile fun x ↦ x != '\'' && x != '\n') ++ ['\''], after)
      | _ => none
    else none
  | c :: '\'' :: rest =>
    if c = '\\' ∨ c = '\'' ∨ c = '\n' then none else some ([c, '\''], rest)
  | _ => none

/-- The first piece of a code text and the text after it. There is none at the end of the text, at
a final backslash and at a block comment that is never closed. -/
def piece? : List Char → Option (Piece × List Char)
  | [] => none
  | '{' :: rest => some (.openBrace, rest)
  | '}' :: rest => some (.closeBrace, rest)
  | ['\\'] => none
  | '\\' :: c :: rest => some (.escape c, rest)
  | '"' :: rest =>
    match stringTail rest with
    | some (tail, after) => some (.string tail, after)
    | none => some (.other '"', rest)
  | '\'' :: rest =>
    match characterTail rest with
    | some (tail, after) => some (.character tail, after)
    | none => some (.other '\'', rest)
  | '/' :: '/' :: rest =>
    some (.lineComment (rest.takeWhile (· != '\n')), rest.dropWhile (· != '\n'))
  | '/' :: '*' :: rest => (cutAtPair '*' '/' rest).map fun cut ↦ (.blockComment cut.1, cut.2)
  | c :: rest => some (.other c, rest)

theorem append_of_stringTail {cs tail after : List Char}
    (h : stringTail cs = some (tail, after)) : tail ++ after = cs := by
  fun_induction stringTail cs generalizing tail with
  | case1 => simp at h
  | case2 rest =>
    simp only [Option.some.injEq, Prod.mk.injEq] at h
    obtain ⟨rfl, rfl⟩ := h
    rfl
  | case3 => simp at h
  | case4 c rest ih =>
    obtain ⟨cut, hcut, heq⟩ := Option.map_eq_some_iff.1 h
    obtain ⟨rfl, rfl⟩ := Prod.mk.inj heq
    simp [ih hcut]
  | case5 c rest _ _ _ ih =>
    obtain ⟨cut, hcut, heq⟩ := Option.map_eq_some_iff.1 h
    obtain ⟨rfl, rfl⟩ := Prod.mk.inj heq
    simp [ih hcut]

theorem append_of_characterTail {cs tail after : List Char}
    (h : characterTail cs = some (tail, after)) : tail ++ after = cs := by
  fun_cases characterTail cs with
  | case1 c rest hc after' hrest =>
    simp only [characterTail, hc, if_true, hrest, Option.some.injEq, Prod.mk.injEq] at h
    obtain ⟨rfl, rfl⟩ := h
    have := List.takeWhile_append_dropWhile (p := fun x ↦ x != '\'' && x != '\n') (l := rest)
    rw [hrest] at this
    simpa using this
  | case2 c rest hc hrest => simp_all [characterTail]
  | case3 c rest hc => simp_all [characterTail]
  | case4 c rest hne hc => simp_all [characterTail]
  | case5 c rest hne hc =>
    simp only [characterTail, hc, if_false, Option.some.injEq, Prod.mk.injEq] at h
    obtain ⟨rfl, rfl⟩ := h
    rfl
  | case6 cs h1 h2 => simp_all [characterTail]

/-- Nothing is lost between a piece and what follows it. -/
theorem append_of_piece? {cs rest : List Char} {p : Piece} (h : piece? cs = some (p, rest)) :
    p.text ++ rest = cs := by
  revert h
  fun_cases piece? cs <;> intro h
  case case11 body =>
    obtain ⟨cut, hcut, heq⟩ := Option.map_eq_some_iff.1 h
    obtain ⟨rfl, rfl⟩ := Prod.mk.inj heq
    simpa [Piece.text] using append_of_cutAtPair hcut
  all_goals simp only [Option.some.injEq, Prod.mk.injEq, reduceCtorEq] at h
  all_goals obtain ⟨rfl, rfl⟩ := h
  case case6 htail => simpa [Piece.text] using append_of_stringTail htail
  case case8 htail => simpa [Piece.text] using append_of_characterTail htail
  all_goals simp [Piece.text]

theorem text_ne_nil (p : Piece) : p.text ≠ [] := by cases p <;> simp [Piece.text]

theorem length_of_piece? {cs rest : List Char} {p : Piece} (h : piece? cs = some (p, rest)) :
    rest.length < cs.length := by
  have hlen := congrArg List.length (append_of_piece? h)
  have hpos := List.length_pos_iff.2 (text_ne_nil p)
  simp only [List.length_append] at hlen
  omega

/-- The code up to the brace that closes `depth + 1` open blocks, with that brace, and the text
after it. -/
def closeBlock (depth : Nat) (cs : List Char) : Option (List Char × List Char) :=
  match h : piece? cs with
  | none => none
  | some (.closeBrace, rest) =>
    match depth with
    | 0 => some (['}'], rest)
    | outer + 1 => (closeBlock outer rest).map fun cut ↦ ('}' :: cut.1, cut.2)
  | some (.openBrace, rest) => (closeBlock (depth + 1) rest).map fun cut ↦ ('{' :: cut.1, cut.2)
  | some (p, rest) => (closeBlock depth rest).map fun cut ↦ (p.text ++ cut.1, cut.2)
termination_by cs.length
decreasing_by all_goals exact length_of_piece? h

end ParserGenerator.Lexer
