import ParserGenerator.Text.Lines

/-!
# Templates

A template is a text with placeholders. A dollar sign starts a placeholder, which is a name or
anything between braces, or it is doubled and stands for itself. Placeholders are filled in once:
what is put in for them is not read again.
-/

namespace ParserGenerator.Template

open Text

inductive Piece where
  | text (s : String)
  /-- A placeholder and the line where it starts. -/
  | placeholder (name : String) (line : Nat)
deriving DecidableEq

inductive TemplateError where
  | unknownPlaceholder (name : String) (line : Nat)
  | unterminated (line : Nat)
  | stray (line : Nat)
deriving DecidableEq

def TemplateError.message : TemplateError → String
  | .unknownPlaceholder name line => s!"line {line}: unknown placeholder `$" ++ name ++ "'"
  | .unterminated line => s!"line {line}: unterminated `$\x7b'"
  | .stray line => s!"line {line}: `$' must be followed by a name, `\x7b' or `$'"

def isNameChar (c : Char) : Bool := c.isAlphanum || c == '_'

/-- What follows a dollar sign on the given line, and the text after it. -/
def construct (line : Nat) : List Char → Except TemplateError (Piece × List Char)
  | '$' :: rest => .ok (.text "$", rest)
  | '{' :: rest =>
    match cutAt '}' rest with
    | some (name, after) => .ok (.placeholder (String.ofList name) line, after)
    | none => .error (.unterminated line)
  | [] => .error (.stray line)
  | c :: rest =>
    if isNameChar c && !c.isDigit then
      .ok (.placeholder (String.ofList (c :: rest.takeWhile isNameChar)) line,
        rest.dropWhile isNameChar)
    else .error (.stray line)

theorem length_of_cutAt {sep : Char} {cs before after : List Char}
    (h : cutAt sep cs = some (before, after)) : after.length < cs.length := by
  unfold cutAt at h
  split at h
  · simp at h
  · next x rest hdrop =>
    simp only [Option.some.injEq, Prod.mk.injEq] at h
    have hle := (List.dropWhile_sublist (l := cs) (· != sep)).length_le
    simp only [hdrop, List.length_cons] at hle
    rw [← h.2]
    omega

theorem length_of_construct {line : Nat} {cs rest : List Char} {piece : Piece}
    (h : construct line cs = .ok (piece, rest)) : rest.length < cs.length := by
  revert h
  fun_cases construct line cs <;> intro h <;> simp only [Except.ok.injEq, Prod.mk.injEq,
    reduceCtorEq] at h
  case case1 => simp [← h.2]
  case case2 hcut =>
    rw [← h.2]
    exact Nat.lt_succ_of_lt (length_of_cutAt hcut)
  case case5 tail _ _ _ =>
    have hle := (List.dropWhile_sublist (l := tail) isNameChar).length_le
    rw [← h.2, List.length_cons]
    omega

/-- Text between placeholders; there is no piece for an empty text. -/
def plain (cs : List Char) : List Piece :=
  if cs.isEmpty then [] else [.text (String.ofList cs)]

/-- The pieces of a text that starts on the given line. Only line feeds outside of placeholders
count as lines. -/
def scan (line : Nat) (cs : List Char) : Except TemplateError (List Piece) :=
  let head := cs.takeWhile (· != '$')
  let here := line + head.count '\n'
  match _hdrop : cs.dropWhile (· != '$') with
  | [] => .ok (plain head)
  | _ :: tail =>
    match _hcons : construct here tail with
    | .error e => .error e
    | .ok (piece, rest) =>
      match scan here rest with
      | .error e => .error e
      | .ok pieces => .ok (plain head ++ piece :: pieces)
termination_by cs.length
decreasing_by
  have hle := (List.dropWhile_sublist (l := cs) (· != '$')).length_le
  have hlt := length_of_construct _hcons
  simp only [_hdrop, List.length_cons] at hle
  omega

def parse (text : String) : Except TemplateError (List Piece) := scan 1 text.toList

/-- Fails on the first placeholder that is not known. -/
def check (known : List String) : List Piece → Except TemplateError Unit
  | [] => .ok ()
  | .text _ :: rest => check known rest
  | .placeholder name line :: rest =>
    if name ∈ known then check known rest else .error (.unknownPlaceholder name line)

/-- What has been written, which placeholders were asked for, and whether all of them had a
value. -/
structure Rendering where
  text : String
  asked : List String
  complete : Bool
deriving DecidableEq

/-- Writes the pieces in order and stops at the first placeholder without a value. -/
def render (value? : String → Option String) : List Piece → Rendering
  | [] => ⟨"", [], true⟩
  | .text s :: rest =>
    let later := render value? rest
    { later with text := s ++ later.text }
  | .placeholder name _ :: rest =>
    match value? name with
    | none => ⟨"", [name], false⟩
    | some s =>
      let later := render value? rest
      { later with text := s ++ later.text, asked := name :: later.asked }

end ParserGenerator.Template
