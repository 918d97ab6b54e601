import ParserGenerator.Grammar.Alternative
import ParserGenerator.Module.Outdent
import ParserGenerator.Proofs.Offsets.Slices
import ParserGenerator.Symbols

/-!
# Rules at byte offsets

The symbols of a right-hand side, the body of an action and its outdented lines are cut out of texts
at offsets. The offset of a cut is that of a character which has been searched for, or the length of
white space or of an indentation unit that has been found at the start of the text.
-/

namespace ParserGenerator.Offsets

open Text

/-! ## Symbols -/

namespace Symbols

open ParserGenerator.Symbols

/-- The end of the symbol at the start of a text whose first byte is `b`. -/
def stop? (b : UInt8) (cs : List Char) : Option Nat :=
  if b = '\''.toUInt8 ∨ b = '"'.toUInt8 then do
    let rest ← sliceFrom? 1 cs
    some (((find? (· == Char.ofUInt8 b) rest).map (· + 2)).getD (byteLength cs))
  else some ((find? isBlank cs).getD (byteLength cs))

/-- The symbol at the start of a text whose first byte is `b`, and the text after it. -/
def take? (b : UInt8) (cs : List Char) : Option (List Char × Slice) := do
  let stop ← stop? b cs
  cutAtByte? stop cs

end Symbols

/-- The symbols of a text, from left to right. -/
def Slice.symbols? (cs : Slice) : Option (List (List Char)) :=
  match (encode (trimStart cs))[0]? with
  | none => some []
  | some b => do
    let (symbol, rest) ← Symbols.take? b (trimStart cs)
    let later ← rest |>.symbols?
    some (symbol :: later)
partial_fixpoint

namespace Symbols

open ParserGenerator.Symbols

def split? (text : String) : Option (List String) :=
  (Slice.symbols? text.toList).map (·.map String.ofList)

theorem cut_quoted (c : Char) (hc : c.utf8Size = 1) (rest : List Char) :
    cutAtByte? (((find? (· == c) rest).map (· + 2)).getD (byteLength (c :: rest))) (c :: rest) =
      some (match rest.dropWhile (· != c) with
        | [] => (c :: rest, [])
        | _ :: after => (c :: rest.takeWhile (· != c) ++ [c], after)) := by
  have hstop : (fun x ↦ !(x == c)) = fun x ↦ x != c := rfl
  rw [find?_eq, hstop]
  cases hdrop : rest.dropWhile (· != c) with
  | nil =>
    have hcut := @cutAtByte?_append _ (c :: rest) [] rfl
    rwa [List.append_nil] at hcut
  | cons x after =>
    obtain ⟨rfl, happ⟩ := append_of_dropWhile hdrop
    have hlen : byteLength (x :: rest.takeWhile (· != x) ++ [x]) =
        byteLength (rest.takeWhile (· != x)) + 2 := by
      simp only [List.cons_append, byteLength, byteLength_append, hc]
      omega
    have hcut := @cutAtByte?_append _ (x :: rest.takeWhile (· != x) ++ [x]) after hlen
    have hsource : x :: rest.takeWhile (· != x) ++ [x] ++ after = x :: rest := by
      rw [List.cons_append, List.cons_append, List.append_assoc, List.singleton_append, happ]
    rwa [hsource] at hcut

/-- The end that is found is that of the first symbol. -/
theorem take?_eq {b : UInt8} {c : Char} (hb : ∀ d, IsAscii d → (b = d.toUInt8 ↔ c = d))
    (hc : isBlank c = false) (rest : List Char) :
    take? b (c :: rest) = some (take c rest) := by
  have hquote : b = '\''.toUInt8 ∨ b = '"'.toUInt8 ↔ isQuote c = true := by
    rw [hb '\'' (by decide), hb '"' (by decide), isQuote, Bool.or_eq_true, beq_iff_eq, beq_iff_eq]
  rw [take?, stop?, take, Option.bind_eq_bind]
  by_cases h : isQuote c = true
  · have hchar : Char.ofUInt8 b = c ∧ c.utf8Size = 1 := by
      rw [isQuote, Bool.or_eq_true, beq_iff_eq, beq_iff_eq] at h
      rcases h with rfl | rfl
      · rw [(hb _ (by decide)).2 rfl]
        exact ⟨by decide, rfl⟩
      · rw [(hb _ (by decide)).2 rfl]
        exact ⟨by decide, rfl⟩
    have hslice : sliceFrom? 1 (c :: rest) = some rest := @sliceFrom?_append _ [c] rest hchar.2
    rw [if_pos (hquote.2 h), if_pos h, hslice, hchar.1, Option.bind_eq_bind, Option.bind_some,
      Option.bind_some]
    exact cut_quoted c hchar.2 rest
  · rw [if_neg (mt hquote.1 h), if_neg h, Option.bind_some, cutAtByte?_find, List.takeWhile_cons,
      List.dropWhile_cons, hc]
    rfl

theorem symbols?_eq (cs : List Char) : Slice.symbols? cs = some (ofChars cs) := by
  fun_induction ofChars cs with
  | case1 cs h =>
    rw [Slice.symbols?, h]
    rfl
  | case2 cs c rest h ih =>
    have hc : isBlank c = false := by
      have hhead := List.head?_dropWhile_not isBlank cs
      rw [← trimStart, h] at hhead
      simpa using hhead
    obtain ⟨b, bs, hbytes, -, hb⟩ := exists_bytes c
    have hfirst : (encode (c :: rest))[0]? = some b := by
      rw [encode_cons, hbytes]
      rfl
    rw [Slice.symbols?, h, hfirst]
    dsimp only
    rw [take?_eq hb hc rest, Option.bind_eq_bind, Option.bind_some]
    exact congrArg (Option.bind · _) ih

theorem split?_eq (text : String) : split? text = some (split text) := by
  rw [split?, symbols?_eq]
  rfl

end Symbols

/-- The symbols of a rule. -/
def Rule.symbols? (r : Rule) : Option (List String) :=
  (Symbols.split? r.rhs).map (·.filter (· ≠ ParserGenerator.Symbols.precMark))

theorem Rule.symbols?_eq (r : Rule) : Rule.symbols? r = some r.symbols := by
  rw [symbols?, Symbols.split?_eq]
  rfl

/-! ## Actions -/

namespace Action

open ParserGenerator.Action

/-- The white space at the start of a line: what is left of the line without its trimmed rest. -/
def indent? (line : List Char) : Option (List Char) := do
  let width ← sub? (byteLength line) (byteLength (trimStart line))
  sliceTo? width line

def leastIndent? (lines : List (List Char)) : Option (List Char) := do
  match ← (lines.filter (!isBlankText ·)).mapM indent? with
  | [] => some []
  | first :: more =>
    some (more.foldl (fun best i ↦ if byteLength i < byteLength best then i else best) first)

def body? (text : List Char) : Option (List Char) :=
  let code := inner text
  match cutAt '\n' code with
  | none => some (trim code)
  | some (first, rest) =>
    if isBlankText first then some code
    else do
      let indent ← leastIndent? (lines rest)
      some ('\n' :: indent ++ trim first ++ '\n' :: rest)

theorem indent?_eq (line : List Char) : indent? line = some (line.takeWhile isBlank) := by
  have happ : line.takeWhile isBlank ++ trimStart line = line :=
    List.takeWhile_append_dropWhile
  have hlen : byteLength line =
      byteLength (trimStart line) + byteLength (line.takeWhile isBlank) := by
    rw [← congrArg byteLength happ, byteLength_append, Nat.add_comm]
  have hslice := @sliceTo?_append _ (line.takeWhile isBlank) (trimStart line) rfl
  rw [happ] at hslice
  rw [indent?, hlen, sub?_add, Option.bind_eq_bind, Option.bind_some, hslice]

theorem body?_eq (text : List Char) : body? text = some (body text) := by
  have hleast (ls : List (List Char)) : leastIndent? ls = some (leastIndent ls) := by
    rw [leastIndent?, mapM_eq_some fun line _ ↦ indent?_eq line, leastIndent]
    rw [Option.bind_eq_bind, Option.bind_some]
    cases (ls.filter (!isBlankText ·)).map (·.takeWhile isBlank) <;> rfl
  rw [body?, body]
  cases cutAt '\n' (inner text) with
  | none => rfl
  | some cut =>
    dsimp only
    split
    · rfl
    · rw [hleast]
      rfl

end Action

/-! ## Outdented code -/

namespace Module

open ParserGenerator.Module

def shiftLeft? (unit : Nat) (lines : List (List Char)) : Option (List (List Char)) :=
  if lines.all fun line ↦ isBlankText line || startsWithUnit unit line then
    lines.mapM fun line ↦ if isBlankText line then some line else sliceFrom? unit line
  else some lines

/-- Removes the first line if it is empty. -/
def dropFirstEmpty? (lines : List (List Char)) : Option (List (List Char)) :=
  if lines.head? = some [] then lines.tail? else some lines

def outdent? (tabSize : Nat) (code : String) : Option (List String) := do
  let shifted ← shiftLeft? (max tabSize 1) (lines code.toList)
  let later ← dropFirstEmpty? (shifted.map clearBlank)
  some ((dropLastEmpty later).map String.ofList)

/-- A unit that a line starts with can be cut off. -/
theorem sliceFrom?_unit {unit : Nat} {line : List Char} (h : startsWithUnit unit line = true) :
    sliceFrom? unit line = some (line.drop unit) := by
  rw [startsWithUnit, Bool.and_eq_true, beq_iff_eq, List.all_eq_true] at h
  have hlen {cs : List Char} (hcs : ∀ c ∈ cs, (c == ' ') = true) : byteLength cs = cs.length := by
    induction cs with
    | nil => rfl
    | cons c cs ih =>
      obtain ⟨hc, hcs⟩ := List.forall_mem_cons.1 hcs
      rw [beq_iff_eq] at hc
      rw [byteLength, ih hcs, hc, List.length_cons, Nat.add_comm]
      rfl
  have hslice := @sliceFrom?_append unit (line.take unit) (line.drop unit) ((hlen h.2).trans h.1)
  rwa [List.take_append_drop] at hslice

theorem outdent?_eq (tabSize : Nat) (code : String) :
    outdent? tabSize code = some (outdent tabSize code) := by
  have hshift (ls : List (List Char)) :
      shiftLeft? (max tabSize 1) ls = some (shiftLeft (max tabSize 1) ls) := by
    rw [shiftLeft?, shiftLeft]
    split
    · next h =>
      apply mapM_eq_some
      intro line hline
      have hunit := List.all_eq_true.1 h line hline
      split
      · rfl
      · next hblank =>
        rw [Bool.or_eq_true] at hunit
        exact sliceFrom?_unit (hunit.resolve_left hblank)
    · rfl
  have hdrop (ls : List (List Char)) : dropFirstEmpty? ls = some (dropFirstEmpty ls) := by
    match ls with
    | [] => rfl
    | [] :: rest => rfl
    | (c :: cs) :: rest => rfl
  rw [outdent?, hshift, Option.bind_eq_bind, Option.bind_some, hdrop]
  rfl

end Module

end ParserGenerator.Offsets
