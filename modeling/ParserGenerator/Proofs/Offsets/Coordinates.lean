import Mathlib.Data.List.TakeWhile
import ParserGenerator.Proofs.Offsets.Scanner

/-!
# Exact coordinates

The line of a place is one more than the line feeds before it, and its column is its distance in
bytes from the start of the line, plus one. However often the lexer is asked for an item, and
whatever a divider means each time, everything it reports carries these coordinates, and it never
has to count lines backwards.
-/

namespace ParserGenerator.Offsets

open Text Lexer

/-! ## Coordinates of a place -/

/-- The offset behind the last line feed of some bytes, or zero. -/
def afterLastFeed (before : List UInt8) : Nat :=
  (before.reverse.dropWhile (· != '\n'.toUInt8)).length

/-- A text stands at a place in some bytes, and the coordinates of the place are right. -/
structure ExactAt (bytes : List UInt8) (text : List Char) (pos : Position) : Prop where
  here : encode text <+: bytes.drop pos.offset
  line : pos.line = 1 + (bytes.take pos.offset).count '\n'.toUInt8
  column : pos.column = pos.offset - afterLastFeed (bytes.take pos.offset) + 1

section Feeds

variable {bs : List UInt8}

theorem afterLastFeed_of_notMem (h : '\n'.toUInt8 ∉ bs) : afterLastFeed bs = 0 := by
  rw [afterLastFeed, List.length_eq_zero_iff, List.dropWhile_eq_nil_iff]
  intro b hb
  rw [bne_iff_ne]
  rintro rfl
  exact h (List.mem_reverse.1 hb)

theorem afterLastFeed_cons_of_mem (h : '\n'.toUInt8 ∈ bs) (b : UInt8) :
    afterLastFeed (b :: bs) = afterLastFeed bs + 1 := by
  have hsome : (bs.reverse.dropWhile (· != '\n'.toUInt8)).isEmpty = false := by
    rw [List.isEmpty_eq_false_iff]
    intro hnil
    have hne := List.dropWhile_eq_nil_iff.1 hnil _ (List.mem_reverse.2 h)
    rw [bne_iff_ne] at hne
    exact hne rfl
  rw [afterLastFeed, List.reverse_cons, List.dropWhile_append, hsome, if_neg Bool.false_ne_true,
    List.length_append]
  rfl

theorem afterLastFeed_feed (h : '\n'.toUInt8 ∉ bs) : afterLastFeed ('\n'.toUInt8 :: bs) = 1 := by
  have hall : ∀ b ∈ bs.reverse, (b != '\n'.toUInt8) = true := by
    intro b hb
    rw [bne_iff_ne]
    rintro rfl
    exact h (List.mem_reverse.1 hb)
  rw [afterLastFeed, List.reverse_cons, List.dropWhile_append_of_pos hall]
  rfl

end Feeds

namespace Scanner

/-- Counting line feeds one by one yields their number and the offset behind the last of them. -/
theorem countFeeds_eq (offset : Nat) (bs : List UInt8) (line start : Nat) :
    countFeeds offset bs (line, start) =
      (line + bs.count '\n'.toUInt8,
        if '\n'.toUInt8 ∈ bs then offset + afterLastFeed bs else start) := by
  induction bs generalizing offset line start with
  | nil => rfl
  | cons b bs ih =>
    rw [countFeeds, List.count_cons]
    by_cases hmem : '\n'.toUInt8 ∈ bs
    · by_cases hb : b = '\n'.toUInt8
      · simp only [hb, if_true, ih, hmem, beq_self_eq_true, List.mem_cons, or_true,
          afterLastFeed_cons_of_mem hmem]
        congr 1 <;> omega
      · simp only [hb, if_false, ih, hmem, beq_iff_eq, List.mem_cons, or_true, if_true,
          afterLastFeed_cons_of_mem hmem]
        congr 1
        omega
    · by_cases hb : b = '\n'.toUInt8
      · simp only [hb, if_true, ih, hmem, if_false, beq_self_eq_true, List.mem_cons, or_false,
          afterLastFeed_feed hmem]
        congr 1
        omega
      · have hfeed : ¬ '\n'.toUInt8 = b := Ne.symm hb
        simp only [hb, if_false, ih, hmem, beq_iff_eq, List.mem_cons, hfeed, or_self]
        rfl

theorem countFeeds_start (bs : List UInt8) :
    countFeeds 0 bs (1, 0) = (1 + bs.count '\n'.toUInt8, afterLastFeed bs) := by
  rw [countFeeds_eq]
  split
  · rw [Nat.zero_add]
  · next h => rw [afterLastFeed_of_notMem h]

end Scanner

/-- The position after a text has the coordinates of the place behind the text. -/
theorem exactAt_advance (before text after : List Char) :
    ExactAt (encode (before ++ (text ++ after))) text (Position.start.advance before) := by
  have hoffset : (Position.start.advance before).offset = (encode before).length := by
    rw [Position.offset_advance_start, length_encode]
  have htake : (encode (before ++ (text ++ after))).take (Position.start.advance before).offset =
      encode before := by
    rw [encode_append, hoffset, List.take_left]
  obtain ⟨hline, hcolumn⟩ := @Scanner.countFeeds_encode before .start 0 rfl
  have hcount :
      Scanner.countFeeds Position.start.offset (encode before) (Position.start.line, 0) =
        (1 + (encode before).count '\n'.toUInt8, afterLastFeed (encode before)) :=
    Scanner.countFeeds_start _
  have hpos := Position.column_advance_start_pos before
  rw [hcount] at hline hcolumn
  constructor
  · rw [encode_append, hoffset, List.drop_left, encode_append]
    exact List.prefix_append ..
  · rw [htake]
    exact hline.symm
  · rw [htake]
    omega

/-! ## Coordinates of what is reported -/

/-- The sign that the text of a failure starts with. -/
def opening : FailureKind → List Char
  | .unbalancedCode => ['{']
  | .unterminatedLiteral => ['%', '{']
  | .unterminatedComment => ['/', '*']

/-- An item carries the coordinates of the place where its text stands. -/
def ItemExact (bytes : List UInt8) : Item → Prop
  | .lexeme lx => ExactAt bytes lx.token.text.toList lx.pos
  | .failure e => ExactAt bytes (opening e.kind) e.pos

/-- All that is reported carries the coordinates of the place where its text stands. -/
structure PullExact (bytes : List UInt8) (p : Pull) : Prop where
  item : ∀ item ∈ p.item?, ItemExact bytes item
  faults : ∀ f ∈ p.faults, ExactAt bytes [f.char] f.pos

theorem ExactAt.of_isPrefix {bytes : List UInt8} {text more : List Char} {pos : Position}
    (h : ExactAt bytes more pos) (hstart : text <+: more) : ExactAt bytes text pos := by
  obtain ⟨rest, rfl⟩ := hstart
  refine ⟨?_, h.line, h.column⟩
  have hhere := h.here
  rw [encode_append] at hhere
  exact (List.prefix_append ..).trans hhere

theorem exactAt_of_mem_placed {passed rest : List Char} {segs : List Segment}
    {entry : Position × Segment} (h : entry ∈ Segment.placed (Position.start.advance passed) segs) :
    ExactAt (encode (passed ++ (segs.flatMap Segment.text ++ rest))) entry.2.text entry.1 := by
  induction segs generalizing passed with
  | nil => cases h
  | cons seg segs ih =>
    rcases List.mem_cons.1 h with rfl | hlater
    · rw [List.flatMap_cons, List.append_assoc]
      exact exactAt_advance ..
    · rw [← Position.advance_append] at hlater
      have hexact := ih hlater
      simpa using hexact

theorem opening_isPrefix {kind : FailureKind} {extent after : List Char}
    (h : (Segment.failure kind extent).Fits after) : opening kind <+: extent := by
  cases kind with
  | unbalancedCode =>
    obtain ⟨rfl, -⟩ := h
    exact List.prefix_rfl
  | unterminatedLiteral =>
    obtain ⟨-, body, rfl, -⟩ := h
    exact ⟨body, rfl⟩
  | unterminatedComment =>
    obtain ⟨-, body, rfl, -⟩ := h
    exact ⟨body, rfl⟩

theorem pullExact_of_passes {cur : Cursor} {p : Pull} {segs : List Segment} (h : Passes cur p segs)
    {passed : List Char} (hpos : Position.start.advance passed = cur.pos) :
    PullExact (encode (passed ++ cur.rest)) p := by
  have hitems := h.items
  have hfaults := h.faults
  rw [← hpos] at hitems hfaults
  rw [← h.text]
  constructor
  · intro item hitem
    have hmem : item ∈ Segment.itemsFrom (Position.start.advance passed) segs := by
      rw [← hitems, Option.mem_toList]
      exact hitem
    obtain ⟨⟨pos, seg⟩, hplaced, heq⟩ := List.mem_filterMap.1 hmem
    have hexact := @exactAt_of_mem_placed passed p.cursor.rest segs _ hplaced
    cases seg with
    | token t =>
      obtain rfl := Option.some.inj heq
      exact hexact
    | failure kind extent =>
      obtain rfl := Option.some.inj heq
      obtain ⟨before, later, hsegs⟩ := List.append_of_mem (Segment.mem_of_mem_placed hplaced)
      have hchain := h.chain
      rw [hsegs] at hchain
      exact hexact.of_isPrefix (opening_isPrefix hchain.fits)
    | _ => cases heq
  · intro f hf
    rw [hfaults] at hf
    obtain ⟨⟨pos, seg⟩, hplaced, heq⟩ := List.mem_filterMap.1 hf
    have hexact := @exactAt_of_mem_placed passed p.cursor.rest segs _ hplaced
    cases seg with
    | illegal c =>
      obtain rfl := Option.some.inj heq
      exact hexact
    | _ => cases heq

theorem pullExact_of_mem_pulls (schedule : List Item → Bool) {n : Nat} {seen : List Item}
    {cur : Cursor} {passed : List Char} (hpos : Position.start.advance passed = cur.pos) :
    ∀ p ∈ pulls schedule n seen cur, PullExact (encode (passed ++ cur.rest)) p := by
  induction n generalizing seen cur passed with
  | zero => nofun
  | succ n ih =>
    obtain ⟨segs, hsegs⟩ := exists_passes_pull (schedule seen) cur
    have hfirst := pullExact_of_passes hsegs hpos
    cases hitem : (cur.pull (schedule seen)).item? with
    | none =>
      rw [pulls_of_item?_eq_none hitem]
      intro p hp
      obtain rfl := List.mem_singleton.1 hp
      exact hfirst
    | some item =>
      rw [pulls_of_item?_eq_some hitem]
      have hpos' : Position.start.advance (passed ++ segs.flatMap Segment.text) =
          (cur.pull (schedule seen)).cursor.pos := by
        rw [Position.advance_append, hpos, hsegs.pos]
      have hlater := @ih (seen ++ [item]) _ _ hpos'
      rw [List.append_assoc, hsegs.text] at hlater
      exact List.forall_mem_cons.2 ⟨hfirst, hlater⟩

/-! ## Runs -/

namespace Scanner

section Runs

variable (overrun : Nat → Nat) (schedule : List Item → Bool)

/-- At the end of the source nothing more is found. -/
theorem reads?_nil (n : Nat) {passed : List Char} {mark : Position} {s : Scanner}
    (h : Stands passed mark s) (seen : List Item) :
    s.reads? overrun (passed ++ []) schedule n seen = some (List.replicate n ([], none), s) := by
  induction n with
  | zero => rfl
  | succ n ih =>
    rw [reads?, next?_nil overrun h, Option.bind_eq_bind, Option.bind_some]
    dsimp only [Option.toList_none]
    rw [List.append_nil seen, ih]
    rfl

/-- Where a reading that starts at a cursor ends. -/
def endOf (cur : Cursor) (reading : List Pull) : Cursor := reading.foldl (fun _ p ↦ p.cursor) cur

/-- What is found by asking again and again is what the pulls of a reading find, then nothing. -/
theorem reads?_eq (n : Nat) {seen : List Item} {cur : Cursor} {passed : List Char}
    {mark : Position} {s : Scanner} (h : Stands passed mark s)
    (hpos : Position.start.advance passed = cur.pos) :
    ∃ final passed', s.reads? overrun (passed ++ cur.rest) schedule n seen =
        some ((pulls schedule n seen cur).map (fun p ↦ (p.faults, p.item?)) ++
          List.replicate (n - (pulls schedule n seen cur).length) ([], none), final) ∧
      passed' ++ (endOf cur (pulls schedule n seen cur)).rest = passed ++ cur.rest ∧
      Position.start.advance passed' = (endOf cur (pulls schedule n seen cur)).pos ∧
      Stands passed' ((pulls schedule n seen cur).foldl Pull.markAfter mark) final := by
  induction n generalizing seen cur passed mark s with
  | zero => exact ⟨s, passed, rfl, rfl, hpos, h⟩
  | succ n ih =>
    obtain ⟨next, passed', hnext, happ, hpos', hstands⟩ :=
      @next?_eq overrun (schedule seen) passed cur.rest _ _ _ h hpos
    cases hitem : (cur.pull (schedule seen)).item? with
    | none =>
      obtain ⟨segs, hsegs⟩ := exists_passes_pull (schedule seen) cur
      have hend : (pullFrom (schedule seen) cur.rest cur.pos).cursor.rest = [] :=
        hsegs.ended hitem
      have hlater := reads?_nil overrun schedule n hstands seen
      rw [hend] at happ
      rw [happ] at hlater
      have hnone : (pullFrom (schedule seen) cur.rest cur.pos).item? = none := hitem
      rw [pulls_of_item?_eq_none hitem, reads?, hnext, Option.bind_eq_bind, Option.bind_some]
      dsimp only
      rw [hnone, Option.toList_none, List.append_nil, hlater]
      refine ⟨next, passed', ?_, ?_, hpos', hstands⟩
      · simp [Cursor.pull, hnone]
      · rw [← happ]
        exact congrArg (passed' ++ ·) hend
    | some item =>
      have hsome : (pullFrom (schedule seen) cur.rest cur.pos).item? = some item := hitem
      obtain ⟨final, passed'', hfinal, happ', hpos'', hlast⟩ :=
        @ih (seen ++ [item]) _ _ _ _ hstands hpos'
      rw [happ] at hfinal happ'
      rw [pulls_of_item?_eq_some hitem, reads?, hnext, Option.bind_eq_bind, Option.bind_some]
      dsimp only
      rw [hsome, Option.toList_some, hfinal]
      refine ⟨final, passed'', ?_, happ', hpos'', hlast⟩
      simp [Cursor.pull, hsome]

/-- However often the lexer is asked for an item, it finds what a reading finds, with exact
coordinates, and it stands where the next segment starts. The place up to which it has counted lines
is never beyond that, nor the start of the line beyond the place. -/
theorem reads?_exact (n : Nat) (source : String) :
    let reading := read schedule (some n) source
    ∃ final, start.reads? overrun source.toList schedule n [] =
        some (reading.map (fun p ↦ (p.faults, p.item?)) ++
          List.replicate (n - reading.length) ([], none), final) ∧
      final.reached = (endOf (.ofString source) reading).pos.offset ∧
      final.counted = (markOf reading).offset ∧ final.line = (markOf reading).line ∧
      final.lineStart ≤ final.counted ∧ final.counted ≤ final.reached ∧
      ∀ p ∈ reading, PullExact source.toUTF8.data.toList p := by
  intro reading
  obtain ⟨final, passed, hreads, happ, hpos, hreached, before, hstart, hcounts, hmark⟩ :=
    @reads?_eq overrun schedule n [] (.ofString source) _ _ _ stands_start rfl
  have hexact := @pullExact_of_mem_pulls schedule n [] (.ofString source) [] rfl
  have hmark' : markOf reading = Position.start.advance before := hmark
  have hcolumn := Position.column_advance_start_pos before
  have hstartLe := hcounts.column
  refine ⟨final, hreads, ?_, ?_, ?_, ?_, ?_, ?_⟩
  · rw [hreached, ← Position.offset_advance_start, hpos]
    rfl
  · rw [hcounts.counted, hmark', Position.offset_advance_start]
  · rw [hcounts.line, hmark']
  · omega
  · obtain ⟨more, rfl⟩ := hstart
    rw [hcounts.counted, hreached, byteLength_append]
    exact Nat.le_add_right ..
  · rw [data_toUTF8]
    exact hexact

end Runs

end Scanner

end ParserGenerator.Offsets
