import ParserGenerator.Lexer.ActionBlock
import ParserGenerator.Text.Quoted
import ParserGenerator.Token

/-!
# Segments

A source is cut into segments from the left: blanks and comments, tokens, single illegal
characters, and the extents of the three failures after which the lexer can go on. The first
segment depends on the text from there on and on whether a divider closes the last section.
`Segment.text_append_first` says that a segment and what follows it make up the text.
-/

namespace ParserGenerator.Lexer

open Text

inductive FailureKind where
  | unbalancedCode
  | unterminatedLiteral
  | unterminatedComment
deriving DecidableEq, Inhabited

def FailureKind.message : FailureKind → String
  | .unbalancedCode => "unbalanced braces in action code"
  | .unterminatedLiteral => "unterminated `%\x7b' block"
  | .unterminatedComment => "unterminated comment"

inductive Segment where
  | blank (text : List Char)
  | lineComment (body : List Char)
  | blockComment (body : List Char)
  | illegal (c : Char)
  | token (t : Token)
  /-- A failure with the text that it takes up. -/
  | failure (kind : FailureKind) (extent : List Char)
deriving DecidableEq

/-- The blanks between tokens: space, tab, carriage return, line feed and form feed. -/
def isSeparator (c : Char) : Bool :=
  c == ' ' || c == '\t' || c == '\r' || c == '\n' || c == '\x0c'

def isNameStart (c : Char) : Bool := c.isAlpha || c == '_'

def isNameChar (c : Char) : Bool := c.isAlphanum || c == '_'

/-- The keyword that a text starts with, if any, and the text after it. -/
def keyword? (cs : List Char) : Option (Keyword × List Char) :=
  Keyword.all.findSome? fun k ↦
    if k.text.toList.isPrefixOf cs then some (k, cs.drop k.text.length) else none

namespace Segment

def text : Segment → List Char
  | .blank cs => cs
  | .lineComment body => '/' :: '/' :: body
  | .blockComment body => '/' :: '*' :: body ++ ['*', '/']
  | .illegal c => [c]
  | .token t => t.text.toList
  | .failure _ extent => extent

/-- The name under which a segment other than a blank is known in messages. -/
def label? : Segment → Option String
  | .token t => some t.kind
  | .blockComment _ => some "COMMENT"
  | .illegal _ => some "ILLEGAL"
  | _ => none

/-- A segment that starts with `%`: a literal block, a divider, a keyword or a stray sign. -/
def percent (closing : Bool) : List Char → Segment × List Char
  | '{' :: rest =>
    match cutAtPair '%' '}' rest with
    | some (body, after) => (.token (.literal (String.ofList body)), after)
    | none => (.failure .unterminatedLiteral ('%' :: '{' :: rest), [])
  | '%' :: rest =>
    if closing then (.token (.divider (some (String.ofList rest))), [])
    else (.token (.divider none), rest)
  | rest =>
    match keyword? ('%' :: rest) with
    | some (k, after) => (.token (.keyword k), after)
    | none => (.illegal '%', rest)

/-- A segment that starts with `/`: a comment or a stray sign. -/
def slash : List Char → Segment × List Char
  | '/' :: rest => (.lineComment (rest.takeWhile (· != '\n')), rest.dropWhile (· != '\n'))
  | '*' :: rest =>
    match cutAtPair '*' '/' rest with
    | some (body, after) => (.blockComment body, after)
    | none => (.failure .unterminatedComment ('/' :: '*' :: rest), [])
  | rest => (.illegal '/', rest)

/-- A segment that starts with a quote: a quoted literal that ends on the same line, or a stray
quote. -/
def quotation (mark : Char) (rest : List Char) : Segment × List Char :=
  match rest.dropWhile fun c ↦ c != mark && c != '\n' with
  | c :: after =>
    if c = mark then
      let body := rest.takeWhile fun c ↦ c != mark && c != '\n'
      (.token (.quoted (String.ofList (mark :: body ++ [mark]))), after)
    else (.illegal mark, rest)
  | [] => (.illegal mark, rest)

/-- A segment that starts with an opening brace. If the block is never closed, the brace alone is
the extent of the failure. -/
def brace (rest : List Char) : Segment × List Char :=
  match closeBlock 0 rest with
  | some (code, after) => (.token (.code (String.ofList ('{' :: code))), after)
  | none => (.failure .unbalancedCode ['{'], rest)

/-- The first segment of the text `c :: rest` and the text after it. With `closing`, a divider
takes all the text after it. -/
def first (closing : Bool) (c : Char) (rest : List Char) : Segment × List Char :=
  if isSeparator c then (.blank (c :: rest.takeWhile isSeparator), rest.dropWhile isSeparator)
  else if isNameStart c then
    (.token (.identifier (String.ofList (c :: rest.takeWhile isNameChar))),
      rest.dropWhile isNameChar)
  else if c.isDigit then
    (.token (.number (String.ofList (c :: rest.takeWhile Char.isDigit))),
      rest.dropWhile Char.isDigit)
  else if c = '%' then percent closing rest
  else if c = '/' then slash rest
  else if c = '\'' ∨ c = '"' then quotation c rest
  else if c = '{' then brace rest
  else
    match Punctuation.ofChar? c with
    | some p => (.token (.punctuation p), rest)
    | none => (.illegal c, rest)

end Segment

/-! ## Nothing is lost -/

theorem append_of_closeBlock {depth : Nat} {cs code after : List Char}
    (h : closeBlock depth cs = some (code, after)) : code ++ after = cs := by
  fun_induction closeBlock depth cs generalizing code with
  | case1 => simp at h
  | case2 cs rest hp =>
    simp only [Option.some.injEq, Prod.mk.injEq] at h
    obtain ⟨rfl, rfl⟩ := h
    simpa [Piece.text] using append_of_piece? hp
  | case3 cs rest hp outer ih =>
    obtain ⟨cut, hcut, heq⟩ := Option.map_eq_some_iff.1 h
    obtain ⟨rfl, rfl⟩ := Prod.mk.inj heq
    simpa [ih hcut, Piece.text] using append_of_piece? hp
  | case4 depth cs rest hp ih =>
    obtain ⟨cut, hcut, heq⟩ := Option.map_eq_some_iff.1 h
    obtain ⟨rfl, rfl⟩ := Prod.mk.inj heq
    simpa [ih hcut, Piece.text] using append_of_piece? hp
  | case5 depth cs p rest _ _ hp ih =>
    obtain ⟨cut, hcut, heq⟩ := Option.map_eq_some_iff.1 h
    obtain ⟨rfl, rfl⟩ := Prod.mk.inj heq
    simpa [ih hcut] using append_of_piece? hp

theorem append_of_keyword? {cs rest : List Char} {k : Keyword}
    (h : keyword? cs = some (k, rest)) : k.text.toList ++ rest = cs := by
  obtain ⟨k', -, hk⟩ := List.exists_of_findSome?_eq_some h
  split at hk
  · next hpre =>
    obtain ⟨t, rfl⟩ := List.isPrefixOf_iff_prefix.1 hpre
    simp only [Option.some.injEq, Prod.mk.injEq] at hk
    obtain ⟨rfl, rfl⟩ := hk
    simp [← String.length_toList]
  · simp at hk

namespace Segment

attribute [local simp] text Token.text

theorem text_append_percent (closing : Bool) (rest : List Char) :
    (percent closing rest).1.text ++ (percent closing rest).2 = '%' :: rest := by
  fun_cases percent closing rest with
  | case1 rest body after h =>
    have happ := append_of_cutAtPair h
    simp [← happ]
  | case2 rest h => simp
  | case3 rest h => simp
  | case4 rest h => simp
  | case5 rest _ _ k after h => simpa using append_of_keyword? h
  | case6 rest _ _ h => simp

theorem text_append_slash (rest : List Char) :
    (slash rest).1.text ++ (slash rest).2 = '/' :: rest := by
  fun_cases slash rest with
  | case1 rest => simp
  | case2 rest body after h =>
    have happ := append_of_cutAtPair h
    simp [← happ]
  | case3 rest h => simp
  | case4 rest _ _ => simp

theorem text_append_quotation (mark : Char) (rest : List Char) :
    (quotation mark rest).1.text ++ (quotation mark rest).2 = mark :: rest := by
  have happ := List.takeWhile_append_dropWhile
    (p := fun c ↦ c != mark && c != '\n') (l := rest)
  unfold quotation
  split
  · next c after h =>
    split
    · next hc =>
      subst hc
      rw [h] at happ
      simpa using happ
    · simp
  · simp

theorem text_append_brace (rest : List Char) :
    (brace rest).1.text ++ (brace rest).2 = '{' :: rest := by
  unfold brace
  split
  · next code after h => simpa using append_of_closeBlock h
  · simp

/-- A segment and the text after it are the text it was cut from. -/
theorem text_append_first (closing : Bool) (c : Char) (rest : List Char) :
    (first closing c rest).1.text ++ (first closing c rest).2 = c :: rest := by
  fun_cases first closing c rest with
  | case1 => simp
  | case2 => simp
  | case3 => simp
  | case4 _ _ _ h => exact h ▸ text_append_percent closing rest
  | case5 _ _ _ _ h => exact h ▸ text_append_slash rest
  | case6 => exact text_append_quotation c rest
  | case7 _ _ _ _ _ _ h => exact h ▸ text_append_brace rest
  | case8 _ _ _ _ _ _ _ p hp => simp [Punctuation.char_of_ofChar? hp]
  | case9 => simp

theorem text_percent_ne_nil (closing : Bool) (rest : List Char) :
    (percent closing rest).1.text ≠ [] := by
  fun_cases percent closing rest with
  | case5 rest _ _ k => cases k <;> simp [Keyword.text]
  | _ => simp

theorem text_slash_ne_nil (rest : List Char) : (slash rest).1.text ≠ [] := by
  fun_cases slash rest <;> simp

theorem text_quotation_ne_nil (mark : Char) (rest : List Char) :
    (quotation mark rest).1.text ≠ [] := by
  fun_cases quotation mark rest <;> simp

theorem text_brace_ne_nil (rest : List Char) : (brace rest).1.text ≠ [] := by
  fun_cases brace rest <;> simp

/-- No segment is empty. -/
theorem text_first_ne_nil (closing : Bool) (c : Char) (rest : List Char) :
    (first closing c rest).1.text ≠ [] := by
  fun_cases first closing c rest with
  | case4 => exact text_percent_ne_nil closing rest
  | case5 => exact text_slash_ne_nil rest
  | case6 => exact text_quotation_ne_nil c rest
  | case7 => exact text_brace_ne_nil rest
  | _ => simp

theorem length_first (closing : Bool) (c : Char) (rest : List Char) :
    (first closing c rest).2.length < rest.length + 1 := by
  have happ := congrArg List.length (text_append_first closing c rest)
  have hpos := List.length_pos_iff.2 (text_first_ne_nil closing c rest)
  simp only [List.length_append, List.length_cons] at happ
  omega

end Segment

end ParserGenerator.Lexer
