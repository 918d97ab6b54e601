import ParserGenerator.Proofs.Offsets.Matches

/-!
# Scanning with incremental coordinates

The lexer keeps the end of its last match and, apart from that, a place up to which it has counted
lines. Before it reports anything it counts on to the start of the match, by a slice of the source
between the two places, and a column is the distance from the start of the line. So it can go on
only if the place counted up to never lies beyond the match: `Scanner.Stands`. One step keeps this
up and yields what the first segment yields (`Scanner.step?_eq`), so asking for an item yields what
a pull yields (`Scanner.next?_eq`).

What the matcher says about the end of an illegal character is not relied on: it may be any offset.
-/

namespace ParserGenerator

namespace Text.Position

theorem offset_advance (p : Position) (cs : List Char) :
    (p.advance cs).offset = p.offset + byteLength cs := by
  induction cs generalizing p with
  | nil => rfl
  | cons c cs ih =>
    have hstep : (p.step c).offset = p.offset + c.utf8Size := by
      unfold step
      split <;> rfl
    rw [advance_cons, ih, hstep, byteLength, Nat.add_assoc]

theorem offset_advance_start (cs : List Char) :
    (start.advance cs).offset = byteLength cs :=
  (offset_advance ..).trans (Nat.zero_add _)

theorem column_advance_start_pos (cs : List Char) : 0 < (start.advance cs).column := by
  have hpos {p : Position} (h : 0 < p.column) : 0 < (p.advance cs).column := by
    induction cs generalizing p with
    | nil => exact h
    | cons c cs ih =>
      apply ih
      unfold step
      split
      · exact Nat.one_pos
      · exact Nat.add_pos_left h _
  exact hpos Nat.one_pos

end Text.Position

/-- The place up to which lines have been counted after a segment that starts at `pos`. -/
def Lexer.Segment.markAfter (mark pos : Text.Position) : Lexer.Segment → Text.Position
  | .token t => pos.advance t.text.toList
  | .failure _ _ => pos
  | .illegal c => pos.step c
  | _ => mark

namespace Offsets

open Text Lexer

/-- Where the lexer stands: the end of the last match, and the place up to which lines have been
counted, with its line and the offset where that line starts. -/
structure Scanner where
  reached : Nat
  counted : Nat
  line : Nat
  lineStart : Nat
deriving DecidableEq

/-- What has been found on the way, and where the lexer stands after it. -/
structure Found where
  faults : List Fault
  item? : Option Item
  scanner : Scanner

namespace Scanner

def start : Scanner := ⟨0, 0, 1, 0⟩

/-- Counts the lines of some bytes, of which the first stands at an offset; the current line and its
start are counted on. -/
def countFeeds (offset : Nat) : List UInt8 → Nat × Nat → Nat × Nat
  | [], place => place
  | b :: bs, (line, lineStart) =>
    countFeeds (offset + 1) bs
      (if b = '\n'.toUInt8 then (line + 1, offset + 1) else (line, lineStart))

/-- Counts on to an offset. -/
def countTo? (source : List Char) (s : Scanner) (offset : Nat) : Option Scanner := do
  let passed ← slice? s.counted offset source
  let (line, lineStart) := countFeeds s.counted (encode passed) (s.line, s.lineStart)
  some { s with counted := offset, line, lineStart }

/-- Counts on to an offset and tells its coordinates. -/
def locate? (source : List Char) (s : Scanner) (offset : Nat) : Option (Scanner × Position) := do
  let s ← s.countTo? source offset
  let width ← sub? offset s.lineStart
  some (s, ⟨offset, s.line, width + 1⟩)

/-- Records the illegal character at the place where lines have been counted up to, and goes on
right behind it. The matcher starts anew unless it has stopped there. -/
def illegal? (source : List Char) (s : Scanner) (pos : Position) : Option Found := do
  let rest ← sliceFrom? pos.offset source
  let c := rest.head?.getD '\x00'
  let next := pos.offset + c.utf8Size
  let reached ← if s.reached ≠ next then bump? source 0 next else some next
  let s ← countTo? source { s with reached } next
  some ⟨[⟨c, pos⟩], none, s⟩

/-- What becomes of a match that starts at an offset. -/
def report? (source : List Char) (s : Scanner) (start : Nat) : Outcome → Option Found
  | .skipped => some ⟨[], none, s⟩
  | .illegal => do
    let (s, pos) ← s.locate? source start
    s.illegal? source pos
  | .failure kind => do
    let (s, pos) ← s.locate? source start
    some ⟨[], some (.failure ⟨kind, pos⟩), s⟩
  | .token t => do
    let (s, pos) ← s.locate? source start
    let _ ← slice? start s.reached source
    let s ← s.countTo? source s.reached
    some ⟨[], some (.lexeme ⟨t, pos⟩), s⟩

/-- Passes over one match, that of the text `c :: rest`. -/
def step? (overrun : Nat → Nat) (source : List Char) (closing : Bool) (s : Scanner) (c : Char)
    (rest : List Char) : Option Found := do
  let (m, text) := Match.first c rest
  let stop := if m = .illegal then overrun s.reached else s.reached + byteLength text
  let (outcome, reached) ← m.run source closing s.reached stop
  report? source { s with reached } s.reached outcome

/-- Finds the next item. -/
def next? (overrun : Nat → Nat) (source : List Char) (closing : Bool) (s : Scanner) :
    Option Found := do
  match ← sliceFrom? s.reached source with
  | [] => some ⟨[], none, s⟩
  | c :: rest =>
    let found ← s.step? overrun source closing c rest
    match found.item? with
    | some _ => some found
    | none =>
      let later ← found.scanner |>.next? overrun source closing
      some { later with faults := found.faults ++ later.faults }
partial_fixpoint

/-- Asks for an item `n` times after the items `seen`. -/
def reads? (overrun : Nat → Nat) (source : List Char) (schedule : List Item → Bool) :
    Nat → List Item → Scanner → Option (List (List Fault × Option Item) × Scanner)
  | 0, _, s => some ([], s)
  | n + 1, seen, s => do
    let found ← s.next? overrun source (schedule seen)
    let (later, s) ← reads? overrun source schedule n (seen ++ found.item?.toList) found.scanner
    some ((found.faults, found.item?) :: later, s)

/-! ## Counting -/

/-- Lines have been counted up to the end of a text at the start of the source. -/
structure Counts (before : List Char) (s : Scanner) : Prop where
  counted : s.counted = byteLength before
  line : s.line = (Position.start.advance before).line
  column : s.lineStart + (Position.start.advance before).column = s.counted + 1

theorem countFeeds_pass {bs : List UInt8} (h : '\n'.toUInt8 ∉ bs) (offset : Nat) (rest : List UInt8)
    (place : Nat × Nat) :
    countFeeds offset (bs ++ rest) place = countFeeds (offset + bs.length) rest place := by
  induction bs generalizing offset with
  | nil => rfl
  | cons b bs ih =>
    rw [List.mem_cons, not_or] at h
    rw [List.cons_append, countFeeds, if_neg (Ne.symm h.1), ih h.2, List.length_cons]
    congr 1
    omega

/-- Counting the line feeds among the bytes of a text leads where its characters lead. -/
theorem countFeeds_encode (cs : List Char) {p : Position} {lineStart : Nat}
    (h : lineStart + p.column = p.offset + 1) :
    (countFeeds p.offset (encode cs) (p.line, lineStart)).1 = (p.advance cs).line ∧
      (countFeeds p.offset (encode cs) (p.line, lineStart)).2 + (p.advance cs).column =
        (p.advance cs).offset + 1 := by
  induction cs generalizing p lineStart with
  | nil => exact ⟨rfl, h⟩
  | cons c cs ih =>
    by_cases hc : c = '\n'
    · subst hc
      rw [encode_cons_of_isAscii (by decide), countFeeds, if_pos rfl]
      exact @ih (p.step '\n') (p.offset + 1) rfl
    · have hfeed : '\n'.toUInt8 ∉ String.utf8EncodeChar c :=
        mt (toUInt8_mem_utf8EncodeChar (by decide)).1 hc
      have hstep : p.step c = ⟨p.offset + c.utf8Size, p.line, p.column + c.utf8Size⟩ := if_neg hc
      have hnext : lineStart + (p.step c).column = (p.step c).offset + 1 := by
        rw [hstep]
        dsimp only
        omega
      rw [encode_cons, countFeeds_pass hfeed, String.length_utf8EncodeChar, Position.advance_cons]
      have hlater := ih hnext
      rw [hstep] at hlater ⊢
      exact hlater

section Source

variable {before passed : List Char} {s : Scanner}

/-- Lines can be counted on to an offset behind the place counted up to. -/
theorem Counts.countTo? (h : Counts before s) (hstart : before <+: passed) (rest : List Char) :
    ∃ next, s.countTo? (passed ++ rest) (byteLength passed) = some next ∧ Counts passed next ∧
      next.reached = s.reached := by
  obtain ⟨more, rfl⟩ := hstart
  have hoffset : (Position.start.advance before).offset = s.counted :=
    (Position.offset_advance_start before).trans h.counted.symm
  have hslice : slice? s.counted (byteLength (before ++ more)) (before ++ more ++ rest) =
      some more := by
    rw [List.append_assoc, slice?_append h.counted.symm rfl]
  have hcolumn := h.column
  rw [← hoffset] at hcolumn
  obtain ⟨hline, hstart⟩ := countFeeds_encode more hcolumn
  rw [hoffset, ← h.line, ← Position.advance_append] at hline hstart
  rw [Scanner.countTo?, hslice, Option.bind_eq_bind, Option.bind_some]
  refine ⟨_, rfl, ⟨rfl, hline, ?_⟩, rfl⟩
  exact hstart.trans (congrArg (· + 1) (Position.offset_advance_start _))

/-- The coordinates of an offset behind the place counted up to can be told. -/
theorem Counts.locate? (h : Counts before s) (hstart : before <+: passed) (rest : List Char) :
    ∃ next, s.locate? (passed ++ rest) (byteLength passed) =
        some (next, Position.start.advance passed) ∧ Counts passed next ∧
      next.reached = s.reached := by
  obtain ⟨next, hcount, hcounts, hreached⟩ := h.countTo? hstart rest
  refine ⟨next, ?_, hcounts, hreached⟩
  have hpos := Position.column_advance_start_pos passed
  have hcolumn := hcounts.column
  have hoffset := Position.offset_advance_start passed
  have hline := hcounts.line
  rw [hcounts.counted] at hcolumn
  have hwidth :
      byteLength passed - next.lineStart + 1 = (Position.start.advance passed).column := by
    omega
  rw [Scanner.locate?, hcount, Option.bind_eq_bind, Option.bind_some, sub?_of_le (by omega),
    Option.bind_eq_bind, Option.bind_some, hwidth, hline, ← hoffset]

/-- A lexer that stands behind a text at the start of the source has not counted lines beyond that
text. The mark is the place up to which it has counted. -/
structure Stands (passed : List Char) (mark : Position) (s : Scanner) : Prop where
  reached : s.reached = byteLength passed
  counts : ∃ before, before <+: passed ∧ Counts before s ∧ mark = Position.start.advance before

theorem stands_start : Stands [] .start start :=
  ⟨rfl, [], List.prefix_rfl, ⟨rfl, rfl, rfl⟩, rfl⟩

end Source

/-! ## Steps -/

section Step

variable {passed : List Char} {mark : Position} {s : Scanner}

theorem Counts.withReached {before : List Char} (h : Counts before s) (reached : Nat) :
    Counts before { s with reached } := ⟨h.counted, h.line, h.column⟩

/-- An illegal character at the place counted up to is recorded, wherever the matcher has stopped. -/
theorem Counts.illegal? (h : Counts passed s) (c : Char) (rest : List Char) :
    ∃ next, s.illegal? (passed ++ c :: rest) (Position.start.advance passed) =
        some ⟨[⟨c, Position.start.advance passed⟩], none, next⟩ ∧
      Counts (passed ++ [c]) next ∧ next.reached = byteLength (passed ++ [c]) := by
  have hsource : passed ++ c :: rest = passed ++ [c] ++ rest := by simp
  have hnext : byteLength passed + c.utf8Size = byteLength (passed ++ [c]) := by simp [byteLength]
  have hbump : bump? (passed ++ c :: rest) 0 (byteLength (passed ++ [c])) =
      some (byteLength (passed ++ [c])) := by
    rw [bump?, Nat.zero_add, hsource, cutAtByte?_append rfl]
    rfl
  obtain ⟨next, hcount, hcounts, hreached⟩ :=
    (h.withReached (byteLength (passed ++ [c]))).countTo? (List.prefix_append passed [c]) rest
  refine ⟨next, ?_, hcounts, hreached⟩
  rw [Scanner.illegal?, Position.offset_advance_start, sliceFrom?_append rfl, Option.bind_eq_bind,
    Option.bind_some]
  dsimp only [List.head?_cons, Option.getD_some]
  rw [hnext, hbump, ite_self, Option.bind_eq_bind, Option.bind_some]
  rw [← hsource] at hcount
  exact congrArg (Option.bind · _) hcount

/-- Whatever has become of the match of a segment is reported as the segment asks for. -/
theorem report?_eq (h : Stands passed mark s) {seg : Segment} (rest : List Char) (reached : Nat)
    (hreached : Outcome.ofSegment seg ≠ .illegal → reached = byteLength (passed ++ seg.text)) :
    ∃ next, report? (passed ++ (seg.text ++ rest)) { s with reached } (byteLength passed)
        (Outcome.ofSegment seg) =
      some ⟨seg.faults (Position.start.advance passed), seg.item? (Position.start.advance passed),
        next⟩ ∧
      Stands (passed ++ seg.text) (seg.markAfter mark (Position.start.advance passed)) next := by
  obtain ⟨hs, before, hstart, hcounts, rfl⟩ := h
  have hlater : before <+: passed ++ seg.text := hstart.trans (List.prefix_append ..)
  obtain ⟨located, hlocate, hlocated, hkept⟩ :=
    (hcounts.withReached reached).locate? hstart (seg.text ++ rest)
  cases seg with
  | blank text | lineComment text | blockComment text =>
    have hr := hreached (by simp [Outcome.ofSegment])
    exact ⟨_, rfl, hr, before, hlater, hcounts.withReached reached, rfl⟩
  | illegal c =>
    obtain ⟨next, hillegal, hcounts', hkept'⟩ := hlocated.illegal? c rest
    refine ⟨next, ?_, hkept', _, List.prefix_rfl, hcounts', ?_⟩
    · rw [Outcome.ofSegment, report?, hlocate]
      exact hillegal
    · simp [Segment.markAfter, Segment.text]
  | token t =>
    have hr := hreached (by simp [Outcome.ofSegment])
    have hslice : slice? (byteLength passed) located.reached
        (passed ++ ((Segment.token t).text ++ rest)) = some t.text.toList := by
      rw [hkept, hr]
      exact slice?_append rfl rfl
    obtain ⟨next, hcount, hcounts', hkept'⟩ :=
      hlocated.countTo? (List.prefix_append passed t.text.toList) rest
    rw [List.append_assoc] at hcount
    refine ⟨next, ?_, (hkept'.trans hkept).trans hr, _, List.prefix_rfl, hcounts', ?_⟩
    · rw [Outcome.ofSegment, report?, hlocate, Option.bind_eq_bind, Option.bind_some]
      dsimp only
      rw [hslice, Option.bind_eq_bind, Option.bind_some, hkept, hr]
      exact congrArg (Option.bind · _) hcount
    · simp [Segment.markAfter, Segment.text]
  | failure kind extent =>
    have hr := hreached (by simp [Outcome.ofSegment])
    refine ⟨located, ?_, hkept.trans hr, passed, List.prefix_append .., hlocated, rfl⟩
    rw [Outcome.ofSegment, report?, hlocate]
    rfl

/-- One step passes over the first segment and yields what the segment yields. -/
theorem step?_eq (overrun : Nat → Nat) (h : Stands passed mark s) (closing : Bool) (c : Char)
    (rest : List Char) :
    let seg := (Segment.first closing c rest).1
    ∃ next, s.step? overrun (passed ++ c :: rest) closing c rest =
        some ⟨seg.faults (Position.start.advance passed),
          seg.item? (Position.start.advance passed), next⟩ ∧
      Stands (passed ++ seg.text) (seg.markAfter mark (Position.start.advance passed)) next := by
  intro seg
  have happ : seg.text ++ (Segment.first closing c rest).2 = c :: rest :=
    Segment.text_append_first closing c rest
  have hrun := Match.run_first passed closing c rest
  rw [← happ] at hrun
  rw [step?, ← happ, h.reached]
  dsimp only
  by_cases hm : (Match.first c rest).1 = .illegal
  · have hillegal : Outcome.ofSegment seg = .illegal := by
      rw [hm] at hrun
      exact (Prod.mk.inj (Option.some.inj hrun)).1.symm
    have hreport := report?_eq h (Segment.first closing c rest).2
      (overrun (byteLength passed)) (absurd hillegal)
    rw [if_pos hm, hm]
    rw [hillegal] at hreport
    exact hreport
  · rw [if_neg hm, hrun]
    exact report?_eq h _ _ fun _ ↦ (byteLength_append ..).symm

end Step

/-! ## Pulls -/

theorem markAfter_of_item? {mark pos : Position} {seg : Segment} {item : Item}
    (h : seg.item? pos = some item) (rest : List Char) :
    Pull.markAfter mark ⟨[], some item, ⟨rest, pos.advance seg.text⟩⟩ = seg.markAfter mark pos := by
  cases seg with
  | token t =>
    obtain rfl := Option.some.inj h
    rfl
  | failure kind extent =>
    obtain rfl := Option.some.inj h
    rfl
  | _ => cases h

theorem markAfter_of_item?_eq_none {mark pos : Position} {seg : Segment}
    (h : seg.item? pos = none) (p : Pull) :
    Pull.markAfter mark { p with faults := seg.faults pos ++ p.faults } =
      p.markAfter (seg.markAfter mark pos) := by
  cases seg with
  | token t => cases h
  | failure kind extent => cases h
  | illegal c =>
    unfold Pull.markAfter
    dsimp only [Segment.faults]
    rw [List.singleton_append, List.getLast?_cons]
    cases p.item? with
    | some item => cases item <;> rfl
    | none => cases p.faults.getLast? <;> rfl
  | _ => rfl

/-- A lexer at the end of its source finds nothing more. -/
theorem next?_nil (overrun : Nat → Nat) {passed : List Char} {mark : Position} {s : Scanner}
    (h : Stands passed mark s) (closing : Bool) :
    s.next? overrun (passed ++ []) closing = some ⟨[], none, s⟩ := by
  rw [next?, h.reached, sliceFrom?_append rfl]
  rfl

/-- In front of a character, the lexer passes over the first segment and goes on unless it has found
an item. -/
theorem next?_cons (overrun : Nat → Nat) {passed : List Char} {mark : Position} {s : Scanner}
    (h : Stands passed mark s) (closing : Bool) (c : Char) (rest : List Char) :
    s.next? overrun (passed ++ c :: rest) closing =
      (s.step? overrun (passed ++ c :: rest) closing c rest).bind fun found ↦
        match found.item? with
        | some _ => some found
        | none =>
          (found.scanner.next? overrun (passed ++ c :: rest) closing).bind fun later ↦
            some { later with faults := found.faults ++ later.faults } := by
  rw [next?, h.reached, sliceFrom?_append rfl]
  rfl

/-- Asking for the next item finds what a pull finds, and lines are never counted beyond the end of
the last match. -/
theorem next?_eq (overrun : Nat → Nat) (closing : Bool) {passed rest : List Char}
    {pos mark : Position} {s : Scanner} (h : Stands passed mark s)
    (hpos : Position.start.advance passed = pos) :
    ∃ next passed', s.next? overrun (passed ++ rest) closing =
        some ⟨(pullFrom closing rest pos).faults, (pullFrom closing rest pos).item?, next⟩ ∧
      passed' ++ (pullFrom closing rest pos).cursor.rest = passed ++ rest ∧
      Position.start.advance passed' = (pullFrom closing rest pos).cursor.pos ∧
      Stands passed' ((pullFrom closing rest pos).markAfter mark) next := by
  revert passed mark s
  fun_induction pullFrom closing rest pos with
  | case1 pos =>
    intro passed mark s h hpos
    exact ⟨s, passed, next?_nil overrun h closing, rfl, hpos, h⟩
  | case2 pos c cs seg after =>
    rename_i item hitem
    intro passed mark s h hpos
    obtain ⟨next, hstep, hstands⟩ := step?_eq overrun h closing c cs
    have happ : seg.text ++ after = c :: cs := Segment.text_append_first closing c cs
    rw [hpos] at hstep hstands
    refine ⟨next, passed ++ seg.text, ?_, by rw [List.append_assoc, happ], ?_, ?_⟩
    · have hfaults : seg.faults pos = [] := by
        cases hseg : seg with
        | illegal c => simp [hseg, Segment.item?] at hitem
        | _ => rfl
      simp only [seg] at hitem hfaults
      simp only [next?_cons overrun h, hstep, Option.bind_some, hitem, hfaults]
    · rw [Position.advance_append, hpos]
    · rw [markAfter_of_item? hitem]
      exact hstands
  | case3 pos c cs seg after =>
    rename_i hitem later ih
    intro passed mark s h hpos
    obtain ⟨next, hstep, hstands⟩ := step?_eq overrun h closing c cs
    have happ : seg.text ++ after = c :: cs := Segment.text_append_first closing c cs
    rw [hpos] at hstep hstands
    have hsource : passed ++ seg.text ++ after = passed ++ c :: cs := by
      rw [List.append_assoc, happ]
    obtain ⟨last, passed', hnext, happ', hpos', hlast⟩ := ih hstands
      (by rw [Position.advance_append, hpos])
    rw [hsource] at hnext happ'
    refine ⟨last, passed', ?_, happ', hpos', ?_⟩
    · simp only [seg] at hitem
      simp only [next?_cons overrun h, hstep, Option.bind_some, hitem, hnext]
      rfl
    · rw [markAfter_of_item?_eq_none hitem]
      exact hlast

end Scanner

end Offsets

end ParserGenerator
