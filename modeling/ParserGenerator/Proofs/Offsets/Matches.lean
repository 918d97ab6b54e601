import ParserGenerator.Proofs.Lexer.Tiling
import ParserGenerator.Proofs.Offsets.ActionBlock

/-!
# Matches at byte offsets

The lexer finds a match for what a text starts with, and a match that opens a block, a comment or
the last section is extended by a search in what remains of the source. Offsets are turned into
texts by slices of the source. Every match gives the segment that the text starts with, and ends
where that segment ends: `Match.run_first`.
-/

namespace ParserGenerator.Offsets

open Text Lexer

/-- What the text at a place starts with. Blocks, comments and dividers are matched by their opening
signs alone. -/
inductive Match where
  /-- Blanks or a line comment. -/
  | skipped
  | identifier
  | number
  | quoted
  | keyword (k : Keyword)
  | punctuation (p : Punctuation)
  | literalBlock
  | divider
  | blockComment
  | codeBlock
  | illegal
deriving DecidableEq

namespace Match

def percent : List Char → Match × List Char
  | '{' :: _ => (.literalBlock, ['%', '{'])
  | '%' :: _ => (.divider, ['%', '%'])
  | rest =>
    match keyword? ('%' :: rest) with
    | some (k, _) => (.keyword k, k.text.toList)
    | none => (.illegal, ['%'])

def slash : List Char → Match × List Char
  | '/' :: rest => (.skipped, '/' :: '/' :: rest.takeWhile (· != '\n'))
  | '*' :: _ => (.blockComment, ['/', '*'])
  | _ => (.illegal, ['/'])

def quotation (mark : Char) (rest : List Char) : Match × List Char :=
  match rest.dropWhile fun c ↦ c != mark && c != '\n' with
  | c :: _ =>
    if c = mark then (.quoted, mark :: (rest.takeWhile fun c ↦ c != mark && c != '\n') ++ [mark])
    else (.illegal, [mark])
  | [] => (.illegal, [mark])

/-- The match at the start of the text `c :: rest`, and the text that is matched. -/
def first (c : Char) (rest : List Char) : Match × List Char :=
  if isSeparator c then (.skipped, c :: rest.takeWhile isSeparator)
  else if isNameStart c then (.identifier, c :: rest.takeWhile isNameChar)
  else if c.isDigit then (.number, c :: rest.takeWhile Char.isDigit)
  else if c = '%' then percent rest
  else if c = '/' then slash rest
  else if c = '\'' ∨ c = '"' then quotation c rest
  else if c = '{' then (.codeBlock, ['{'])
  else
    match Punctuation.ofChar? c with
    | some p => (.punctuation p, [c])
    | none => (.illegal, [c])

end Match

/-- What a match amounts to once it has been extended. -/
inductive Outcome where
  | skipped
  | illegal
  | token (t : Token)
  | failure (kind : FailureKind)
deriving DecidableEq

/-- What a segment amounts to. -/
def Outcome.ofSegment : Segment → Outcome
  | .blank _ | .lineComment _ | .blockComment _ => .skipped
  | .illegal _ => .illegal
  | .token t => .token t
  | .failure kind _ => .failure kind

/-- Extends a match that ends at `stop` by `n` bytes. -/
def bump? (source : List Char) (stop n : Nat) : Option Nat :=
  (cutAtByte? (stop + n) source).map fun _ ↦ stop + n

/-- The text of the source that has been matched. -/
def matched? (source : List Char) (start stop : Nat) : Option String :=
  (slice? start stop source).map String.ofList

/-- What the match between two offsets amounts to, and where it ends once it has been extended. -/
def Match.run (source : List Char) (closing : Bool) (start stop : Nat) :
    Match → Option (Outcome × Nat)
  | .skipped => some (.skipped, stop)
  | .illegal => some (.illegal, stop)
  | .identifier => do
    let name ← matched? source start stop
    some (.token (.identifier name), stop)
  | .number => do
    let digits ← matched? source start stop
    some (.token (.number digits), stop)
  | .quoted => do
    let text ← matched? source start stop
    some (.token (.quoted text), stop)
  | .keyword k => some (.token (.keyword k), stop)
  | .punctuation p => some (.token (.punctuation p), stop)
  | .literalBlock => do
    let rest ← sliceFrom? stop source
    match findPair? '%' '}' rest with
    | some n =>
      let stop ← bump? source stop (n + 2)
      let body ← sliceTo? n rest
      some (.token (.literal (String.ofList body)), stop)
    | none =>
      let stop ← bump? source stop (byteLength rest)
      some (.failure .unterminatedLiteral, stop)
  | .divider =>
    if closing then do
      let rest ← sliceFrom? stop source
      let stop ← bump? source stop (byteLength rest)
      some (.token (.divider (some (String.ofList rest))), stop)
    else some (.token (.divider none), stop)
  | .blockComment => do
    let rest ← sliceFrom? stop source
    match findPair? '*' '/' rest with
    | some n =>
      let stop ← bump? source stop (n + 2)
      some (.skipped, stop)
    | none =>
      let stop ← bump? source stop (byteLength rest)
      some (.failure .unterminatedComment, stop)
  | .codeBlock => do
    let rest ← sliceFrom? stop source
    match ← Slice.scanCode rest 1 0 with
    | some n =>
      let stop ← bump? source stop n
      let text ← matched? source start stop
      some (.token (.code text), stop)
    | none => some (.failure .unbalancedCode, stop)

/-! ## Matches and segments -/

section Source

variable {passed text more rest : List Char}

theorem bump?_append :
    bump? (passed ++ (text ++ (more ++ rest))) (byteLength passed + byteLength text)
        (byteLength more) =
      some (byteLength passed + byteLength (text ++ more)) := by
  have hlen : byteLength (passed ++ text ++ more) =
      byteLength passed + byteLength text + byteLength more := by
    simp only [byteLength_append]
  have hsource : passed ++ (text ++ (more ++ rest)) = passed ++ text ++ more ++ rest := by
    simp only [List.append_assoc]
  rw [bump?, hsource, cutAtByte?_append hlen, byteLength_append, ← Nat.add_assoc]
  rfl

theorem matched?_append :
    matched? (passed ++ (text ++ rest)) (byteLength passed) (byteLength passed + byteLength text) =
      some (String.ofList text) := by
  rw [matched?, slice?_append rfl (byteLength_append passed text)]
  rfl

theorem sliceFrom?_matched :
    sliceFrom? (byteLength passed + byteLength text) (passed ++ (text ++ rest)) = some rest := by
  rw [← List.append_assoc, sliceFrom?_append (byteLength_append passed text)]

end Source

/-- The match of `text` between `passed` and `after` gives a segment. -/
def Match.Gives (passed : List Char) (closing : Bool) (m : Match) (text after : List Char)
    (seg : Segment) : Prop :=
  m.run (passed ++ (text ++ after)) closing (byteLength passed)
      (byteLength passed + byteLength text) =
    some (Outcome.ofSegment seg, byteLength passed + byteLength seg.text)

namespace Match

section Gives

variable (passed : List Char) (closing : Bool)

theorem gives_identifier (text after : List Char) :
    Gives passed closing .identifier text after (.token (.identifier (String.ofList text))) := by
  simp [Gives, run, matched?_append, Segment.text, Token.text, Outcome.ofSegment]

theorem gives_number (text after : List Char) :
    Gives passed closing .number text after (.token (.number (String.ofList text))) := by
  simp [Gives, run, matched?_append, Segment.text, Token.text, Outcome.ofSegment]

theorem gives_quoted (text after : List Char) :
    Gives passed closing .quoted text after (.token (.quoted (String.ofList text))) := by
  simp [Gives, run, matched?_append, Segment.text, Token.text, Outcome.ofSegment]

theorem gives_literalBlock (rest : List Char) :
    Gives passed closing .literalBlock ['%', '{'] rest
      (Segment.percent closing ('{' :: rest)).1 := by
  rw [Gives, run, sliceFrom?_matched, Option.bind_eq_bind, Option.bind_some, findPair?,
    Segment.percent]
  cases hcut : cutAtPair '%' '}' rest with
  | none =>
    have hbump := @bump?_append passed ['%', '{'] rest []
    rw [List.append_nil] at hbump
    dsimp only [Option.map_none]
    rw [hbump]
    rfl
  | some cut =>
    obtain ⟨body, after⟩ := cut
    obtain rfl := append_of_cutAtPair hcut
    have hbump := @bump?_append passed ['%', '{'] (body ++ ['%', '}']) after
    have hlen : byteLength (body ++ ['%', '}']) = byteLength body + 2 := byteLength_append ..
    rw [hlen, List.append_assoc] at hbump
    dsimp only [Option.map_some]
    refine (congrArg (Option.bind · _) hbump).trans ?_
    rw [Option.bind_some, sliceTo?_append rfl]
    simp [Outcome.ofSegment, Segment.text, Token.text]

theorem gives_divider (rest : List Char) :
    Gives passed closing .divider ['%', '%'] rest (Segment.percent closing ('%' :: rest)).1 := by
  rw [Gives, run, Segment.percent]
  cases closing with
  | false => rfl
  | true =>
    have hbump := @bump?_append passed ['%', '%'] rest []
    rw [List.append_nil] at hbump
    simp only [if_true, sliceFrom?_matched, Option.bind_eq_bind, Option.bind_some, hbump]
    simp [Outcome.ofSegment, Segment.text, Token.text]

theorem gives_blockComment (rest : List Char) :
    Gives passed closing .blockComment ['/', '*'] rest (Segment.slash ('*' :: rest)).1 := by
  rw [Gives, run, sliceFrom?_matched, Option.bind_eq_bind, Option.bind_some, findPair?,
    Segment.slash]
  cases hcut : cutAtPair '*' '/' rest with
  | none =>
    have hbump := @bump?_append passed ['/', '*'] rest []
    rw [List.append_nil] at hbump
    dsimp only [Option.map_none]
    rw [hbump]
    rfl
  | some cut =>
    obtain ⟨body, after⟩ := cut
    obtain rfl := append_of_cutAtPair hcut
    have hbump := @bump?_append passed ['/', '*'] (body ++ ['*', '/']) after
    have hlen : byteLength (body ++ ['*', '/']) = byteLength body + 2 := byteLength_append ..
    rw [hlen, List.append_assoc] at hbump
    dsimp only [Option.map_some]
    exact congrArg (Option.bind · _) hbump

theorem gives_codeBlock (rest : List Char) :
    Gives passed closing .codeBlock ['{'] rest (Segment.brace rest).1 := by
  have hscan : Slice.scanCode rest 1 0 =
      some ((closeBlock 0 rest).map fun cut ↦ byteLength [] + byteLength cut.1) :=
    scanCode_eq [] 0 rest
  rw [Gives, run, sliceFrom?_matched, Option.bind_eq_bind, Option.bind_some, hscan,
    Segment.brace, Option.bind_eq_bind, Option.bind_some]
  cases hclose : closeBlock 0 rest with
  | none => rfl
  | some cut =>
    obtain ⟨code, after⟩ := cut
    obtain rfl := append_of_closeBlock hclose
    have hbump := @bump?_append passed ['{'] code after
    have hmatched := @matched?_append passed (['{'] ++ code) after
    have hzero : byteLength [] + byteLength code = byteLength code := Nat.zero_add _
    dsimp only [Option.map_some]
    rw [hzero, hbump, Option.bind_eq_bind, Option.bind_some]
    refine (congrArg (Option.bind · _) hmatched).trans ?_
    simp [Outcome.ofSegment, Segment.text, Token.text]

theorem gives_quotation (mark : Char) (rest : List Char) :
    ∃ after, (quotation mark rest).2 ++ after = mark :: rest ∧
      Gives passed closing (quotation mark rest).1 (quotation mark rest).2 after
        (Segment.quotation mark rest).1 := by
  have happ := List.takeWhile_append_dropWhile
    (p := fun c ↦ c != mark && c != '\n') (l := rest)
  cases hdrop : rest.dropWhile fun c ↦ c != mark && c != '\n' with
  | nil =>
    simp only [quotation, Segment.quotation, hdrop]
    exact ⟨rest, rfl, rfl⟩
  | cons c after =>
    rw [hdrop] at happ
    by_cases hc : c = mark
    · subst hc
      simp only [quotation, Segment.quotation, hdrop, if_true]
      exact ⟨after, by simpa using happ, gives_quoted passed closing _ after⟩
    · simp only [quotation, Segment.quotation, hdrop, if_neg hc]
      exact ⟨rest, rfl, rfl⟩

theorem gives_percent (rest : List Char) :
    ∃ after, (percent rest).2 ++ after = '%' :: rest ∧
      Gives passed closing (percent rest).1 (percent rest).2 after
        (Segment.percent closing rest).1 := by
  fun_cases percent rest with
  | case1 rest => exact ⟨rest, rfl, gives_literalBlock passed closing rest⟩
  | case2 rest => exact ⟨rest, rfl, gives_divider passed closing rest⟩
  | case3 rest hliteral hdivider k after hk =>
    have hpercent : Segment.percent closing rest = (.token (.keyword k), after) := by
      rw [Segment.percent.eq_3 closing rest hliteral hdivider, hk]
    rw [hpercent]
    exact ⟨after, append_of_keyword? hk, rfl⟩
  | case4 rest hliteral hdivider hk =>
    have hpercent : Segment.percent closing rest = (.illegal '%', rest) := by
      rw [Segment.percent.eq_3 closing rest hliteral hdivider, hk]
    rw [hpercent]
    exact ⟨rest, rfl, rfl⟩

theorem gives_slash (rest : List Char) :
    ∃ after, (slash rest).2 ++ after = '/' :: rest ∧
      Gives passed closing (slash rest).1 (slash rest).2 after (Segment.slash rest).1 := by
  fun_cases slash rest with
  | case1 rest => exact ⟨rest.dropWhile (· != '\n'), by simp, rfl⟩
  | case2 rest => exact ⟨rest, rfl, gives_blockComment passed closing rest⟩
  | case3 rest hline hblock =>
    have hslash : Segment.slash rest = (.illegal '/', rest) := by
      rw [Segment.slash.eq_3 rest hline hblock]
    rw [hslash]
    exact ⟨rest, rfl, rfl⟩

/-- The match at the start of a text gives the first segment of the text. -/
theorem gives_first (c : Char) (rest : List Char) :
    ∃ after, (first c rest).2 ++ after = c :: rest ∧
      Gives passed closing (first c rest).1 (first c rest).2 after
        (Segment.first closing c rest).1 := by
  fun_cases first c rest with
  | case1 h =>
    rw [Segment.first, if_pos h]
    exact ⟨rest.dropWhile isSeparator, by simp, rfl⟩
  | case2 h₁ h =>
    rw [Segment.first, if_neg h₁, if_pos h]
    exact ⟨rest.dropWhile isNameChar, by simp, gives_identifier ..⟩
  | case3 h₁ h₂ h =>
    rw [Segment.first, if_neg h₁, if_neg h₂, if_pos h]
    exact ⟨rest.dropWhile Char.isDigit, by simp, gives_number ..⟩
  | case4 h₁ h₂ h₃ h =>
    subst h
    rw [Segment.first, if_neg h₁, if_neg h₂, if_neg h₃, if_pos rfl]
    exact gives_percent passed closing rest
  | case5 h₁ h₂ h₃ h₄ h =>
    subst h
    rw [Segment.first, if_neg h₁, if_neg h₂, if_neg h₃, if_neg h₄, if_pos rfl]
    exact gives_slash passed closing rest
  | case6 h₁ h₂ h₃ h₄ h₅ h =>
    rw [Segment.first, if_neg h₁, if_neg h₂, if_neg h₃, if_neg h₄, if_neg h₅, if_pos h]
    exact gives_quotation passed closing c rest
  | case7 h₁ h₂ h₃ h₄ h₅ h₆ h =>
    subst h
    rw [Segment.first, if_neg h₁, if_neg h₂, if_neg h₃, if_neg h₄, if_neg h₅, if_neg h₆, if_pos rfl]
    exact ⟨rest, rfl, gives_codeBlock passed closing rest⟩
  | case8 h₁ h₂ h₃ h₄ h₅ h₆ h₇ p hp =>
    rw [Segment.first, if_neg h₁, if_neg h₂, if_neg h₃, if_neg h₄, if_neg h₅, if_neg h₆, if_neg h₇,
      hp]
    obtain rfl := Punctuation.char_of_ofChar? hp
    exact ⟨rest, rfl, by simp [Gives, run, Outcome.ofSegment, Segment.text, Token.text]⟩
  | case9 h₁ h₂ h₃ h₄ h₅ h₆ h₇ hp =>
    rw [Segment.first, if_neg h₁, if_neg h₂, if_neg h₃, if_neg h₄, if_neg h₅, if_neg h₆, if_neg h₇,
      hp]
    exact ⟨rest, rfl, rfl⟩

end Gives

/-- A match that has been extended ends where the first segment of the text ends. -/
theorem run_first (passed : List Char) (closing : Bool) (c : Char) (rest : List Char) :
    (first c rest).1.run (passed ++ c :: rest) closing (byteLength passed)
        (byteLength passed + byteLength (first c rest).2) =
      some (Outcome.ofSegment (Segment.first closing c rest).1,
        byteLength passed + byteLength (Segment.first closing c rest).1.text) := by
  obtain ⟨after, happ, hgives⟩ := gives_first passed closing c rest
  rwa [Gives, happ] at hgives

end Match

end ParserGenerator.Offsets
