import ParserGenerator.Module.Outdent
import ParserGenerator.Proofs.Text.Splits
import ParserGenerator.Proofs.Text.Trimming

/-!
# When outdenting changes nothing

Outdenting shifts every line of a code by one number of characters, which are spaces, and leaves out
blank lines at both ends. Outdenting its result again changes it in three ways: another unit is
removed, a line that is empty after the first was dropped is dropped too, or a carriage return that
had another one before its line feed is lost. There are no other ways, and none of the three undoes
another, since each makes the text shorter: `outdent_outdent_eq_iff`.
-/

namespace ParserGenerator.Module

open Text

variable {unit k : Nat} {line : List Char} {rows : List (List Char)}

/-! ## Shifting -/

theorem startsWithUnit_iff :
    startsWithUnit unit line = true ↔ List.replicate unit ' ' <+: line := by
  rw [startsWithUnit, Bool.and_eq_true, beq_iff_eq, List.all_eq_true, List.prefix_iff_eq_take,
    List.length_replicate]
  constructor
  · rintro ⟨hlen, hspace⟩
    rw [eq_comm, List.eq_replicate_iff]
    exact ⟨hlen, fun c hc ↦ by simpa using hspace c hc⟩
  · intro h
    rw [← h]
    simp

theorem isBlankText_replicate (k : Nat) : isBlankText (List.replicate k ' ') = true := by
  rw [isBlankText, List.all_eq_true]
  intro c hc
  rw [List.eq_of_mem_replicate hc]
  decide

/-- Without spaces at its start, a line is as blank as before. -/
theorem isBlankText_drop (h : List.replicate k ' ' <+: line) :
    isBlankText (line.drop k) = isBlankText line := by
  obtain ⟨rest, rfl⟩ := h
  rw [List.drop_left' List.length_replicate, isBlankText_append, isBlankText_replicate,
    Bool.true_and]

/-- By how many characters lines are shifted: one unit if every line that is not blank starts with
one. -/
def shiftOf (unit : Nat) (lines : List (List Char)) : Nat :=
  if lines.all fun line ↦ isBlankText line || startsWithUnit unit line then unit else 0

/-- A line after it has been shifted; blank lines are empty. -/
def shifted (k : Nat) (line : List Char) : List Char :=
  if isBlankText line then [] else line.drop k

theorem shiftOf_eq (unit : Nat) (lines : List (List Char)) :
    shiftOf unit lines = 0 ∨ shiftOf unit lines = unit := by
  unfold shiftOf
  split
  · exact .inr rfl
  · exact .inl rfl

theorem shiftOf_eq_zero_iff {lines : List (List Char)} (hunit : 0 < unit) :
    shiftOf unit lines = 0 ↔
      ∃ line ∈ lines, isBlankText line = false ∧ ¬ List.replicate unit ' ' <+: line := by
  have hne : unit ≠ 0 := Nat.ne_of_gt hunit
  unfold shiftOf
  split
  · next h =>
    simp only [hne, false_iff]
    rintro ⟨line, hline, hblank, hstart⟩
    have hor := List.all_eq_true.1 h line hline
    rw [hblank, Bool.false_or, startsWithUnit_iff] at hor
    exact hstart hor
  · next h =>
    rw [Bool.not_eq_true, List.all_eq_false] at h
    obtain ⟨line, hline, hor⟩ := h
    rw [Bool.or_eq_true, not_or, startsWithUnit_iff, Bool.not_eq_true] at hor
    exact iff_of_true rfl ⟨line, hline, hor⟩

/-- What is removed from a line consists of spaces. -/
theorem replicate_shiftOf_isPrefix {lines : List (List Char)} (hline : line ∈ lines)
    (hblank : isBlankText line = false) : List.replicate (shiftOf unit lines) ' ' <+: line := by
  unfold shiftOf
  split
  · next h =>
    have hor := List.all_eq_true.1 h line hline
    rwa [hblank, Bool.false_or, startsWithUnit_iff] at hor
  · exact List.nil_prefix

theorem map_clearBlank_shiftLeft (unit : Nat) (lines : List (List Char)) :
    (shiftLeft unit lines).map clearBlank = lines.map (shifted (shiftOf unit lines)) := by
  have hclear (line : List Char) (hline : line ∈ lines) :
      clearBlank (if isBlankText line then line else line.drop (shiftOf unit lines)) =
        shifted (shiftOf unit lines) line := by
    unfold shifted clearBlank
    cases hblank : isBlankText line with
    | true => simp [hblank]
    | false =>
      have hspaces : List.replicate (shiftOf unit lines) ' ' <+: line :=
        replicate_shiftOf_isPrefix hline hblank
      have hdrop := isBlankText_drop hspaces
      simp [hdrop, hblank]
  have hshift : shiftLeft unit lines = lines.map fun line ↦
      if isBlankText line then line else line.drop (shiftOf unit lines) := by
    unfold shiftLeft shiftOf
    split
    · rfl
    · simp
  rw [hshift, List.map_map]
  exact List.map_congr_left hclear

/-! ## Blank lines at both ends -/

theorem dropFirstEmpty_sublist (rows : List (List Char)) :
    List.Sublist (dropFirstEmpty rows) rows := by
  unfold dropFirstEmpty
  split
  · exact List.sublist_cons_self ..
  · exact List.Sublist.refl _

theorem dropLastEmpty_isPrefix (rows : List (List Char)) : dropLastEmpty rows <+: rows :=
  List.rdropWhile_prefix List.isEmpty rows

theorem dropFirstEmpty_eq_self (h : rows.head? ≠ some []) : dropFirstEmpty rows = rows := by
  unfold dropFirstEmpty
  split
  · exact absurd rfl h
  · rfl

theorem dropLastEmpty_eq_self (h : rows.getLast? ≠ some []) : dropLastEmpty rows = rows := by
  apply List.rdropWhile_eq_self_iff.2
  intro hne hempty
  rw [List.getLast?_eq_some_getLast hne, List.isEmpty_iff.1 hempty] at h
  exact h rfl

theorem getLast?_dropLastEmpty (rows : List (List Char)) :
    (dropLastEmpty rows).getLast? ≠ some [] := by
  intro h
  have hne : dropLastEmpty rows ≠ [] := by
    intro hnil
    rw [hnil] at h
    cases h
  have hlast := List.rdropWhile_last_not List.isEmpty rows hne
  rw [List.getLast?_eq_some_getLast hne] at h
  exact hlast (List.isEmpty_iff.2 (Option.some.inj h))

/-! ## The rows of an outdented code -/

/-- Lines that have been shifted, without those that are left out. -/
def tidied (unit : Nat) (lines : List (List Char)) : List (List Char) :=
  dropLastEmpty (dropFirstEmpty (lines.map (shifted (shiftOf unit lines))))

theorem outdentChars_eq (tabSize : Nat) (code : List Char) :
    outdentChars tabSize code = tidied (max tabSize 1) (lines code) := by
  rw [outdentChars, map_clearBlank_shiftLeft, tidied]

theorem tidied_sublist (unit : Nat) (lines : List (List Char)) :
    List.Sublist (tidied unit lines) (lines.map (shifted (shiftOf unit lines))) :=
  (dropLastEmpty_isPrefix _).sublist.trans (dropFirstEmpty_sublist _)

/-- What the rows of an outdented code are like: they have no line feeds, they are empty if they are
blank, and the last one is not empty. -/
structure IsTidy (rows : List (List Char)) : Prop where
  feed : ∀ row ∈ rows, '\n' ∉ row
  blank : ∀ row ∈ rows, isBlankText row = true → row = []
  last : rows.getLast? ≠ some []

theorem isTidy_outdentChars (tabSize : Nat) (code : List Char) :
    IsTidy (outdentChars tabSize code) := by
  rw [outdentChars_eq]
  have hmem {row : List Char} (hrow : row ∈ tidied (max tabSize 1) (lines code)) :
      ∃ line ∈ lines code, shifted (shiftOf (max tabSize 1) (lines code)) line = row :=
    List.mem_map.1 ((tidied_sublist _ _).subset hrow)
  refine ⟨?_, ?_, getLast?_dropLastEmpty _⟩
  · intro row hrow hfeed
    obtain ⟨line, hline, rfl⟩ := hmem hrow
    unfold shifted at hfeed
    split at hfeed
    · cases hfeed
    · exact feed_not_mem_of_mem_lines hline (List.mem_of_mem_drop hfeed)
  · intro row hrow hblank
    obtain ⟨line, hline, rfl⟩ := hmem hrow
    unfold shifted at hblank ⊢
    split
    · rfl
    · next hnot =>
      rw [Bool.not_eq_true] at hnot
      rw [if_neg (by simp [hnot]), isBlankText_drop (replicate_shiftOf_isPrefix hline hnot), hnot]
        at hblank
      cases hblank

/-- The lines of tidy rows that are joined again: a carriage return at the end of a row is lost
unless the row is the last one. -/
theorem lines_joined {row : List Char} (h : IsTidy (row :: rows)) :
    lines (row ++ rows.flatMap ('\n' :: ·)) =
      (row :: rows).dropLast.map chomp ++ (row :: rows).getLast?.toList := by
  induction rows generalizing row with
  | nil =>
    have hne : row ≠ [] := fun hnil ↦ h.last (by rw [hnil]; rfl)
    simpa using lines_of_not_mem (h.feed row List.mem_cons_self) hne
  | cons next rows ih =>
    have hnext : IsTidy (next :: rows) :=
      ⟨fun r hr ↦ h.feed r (List.mem_cons_of_mem _ hr),
        fun r hr ↦ h.blank r (List.mem_cons_of_mem _ hr), by simpa using h.last⟩
    rw [List.flatMap_cons, List.cons_append, lines_row (h.feed row List.mem_cons_self), ih hnext]
    simp

/-! ## Outdenting twice -/

theorem length_shifted_le (k : Nat) (line : List Char) : (shifted k line).length ≤ line.length := by
  unfold shifted
  split
  · exact Nat.zero_le _
  · exact (List.drop_sublist k line).length_le

theorem shifted_zero_of_blank (h : isBlankText line = true → line = []) :
    shifted 0 line = line := by
  unfold shifted
  split
  · next hblank => exact (h hblank).symm
  · rfl

theorem map_eq_self_iff {α : Type} {f : α → α} {l : List α} : l.map f = l ↔ ∀ a ∈ l, f a = a := by
  simpa using List.map_inj_left (f := f) (g := id) (l := l)

theorem chomp_eq_self (h : line.getLast? ≠ some '\r') : chomp line = line := if_neg h

theorem length_chomp_lt (h : line.getLast? = some '\r') : (chomp line).length < line.length := by
  obtain ⟨before, rfl⟩ := List.getLast?_eq_some_iff.1 h
  simp [chomp]

section Twice

variable {row : List Char} (h : IsTidy (row :: rows)) (hunit : 0 < unit)

include h

/-- A shift that leaves a tidy last row as it is removes nothing. -/
theorem eq_zero_of_shifted_last {last : List Char} (hlast : last ∈ (row :: rows).getLast?)
    (hshift : shifted k last = last) : k = 0 := by
  have hne : last ≠ [] := fun hnil ↦ h.last (by rw [Option.mem_def.1 hlast, hnil])
  have hblank : isBlankText last = false := by
    rw [← Bool.not_eq_true]
    exact mt (h.blank last (List.mem_of_mem_getLast? hlast)) hne
  have hlen := congrArg List.length hshift
  rw [shifted, hblank, if_neg Bool.false_ne_true, List.length_drop] at hlen
  have hpos := List.length_pos_iff.2 hne
  omega

include hunit

/-- Tidy rows that are joined and tidied again are the same rows if nothing is left to do: the first
one is not empty, one of them does not start with a unit, and no carriage return is lost. -/
theorem tidied_joined_eq_iff :
    tidied unit (lines (row ++ rows.flatMap ('\n' :: ·))) = row :: rows ↔
      row ≠ [] ∧ (∃ r ∈ row :: rows, r ≠ [] ∧ ¬ List.replicate unit ' ' <+: r) ∧
        ∀ r ∈ (row :: rows).dropLast, r.getLast? ≠ some '\r' := by
  have hlines := lines_joined h
  obtain ⟨init, last, hrows⟩ := List.eq_nil_or_concat' (row :: rows) |>.resolve_left (by simp)
  have hlastmem : last ∈ (row :: rows).getLast? := by simp [hrows]
  rw [hrows, List.dropLast_concat, List.getLast?_concat, Option.toList_some] at hlines
  rw [hrows, List.dropLast_concat, hlines, ← hrows]
  set k := shiftOf unit (init.map chomp ++ [last]) with hk
  constructor
  · intro heq
    have hlen : (init.map chomp ++ [last]).length = (row :: rows).length := by simp [hrows]
    -- The rows are as many as the lines, so no line has been left out.
    have hmap : (init.map chomp ++ [last]).map (shifted k) = row :: rows := by
      rw [← heq]
      refine ((tidied_sublist unit _).eq_of_length ?_).symm
      rw [heq, List.length_map, hlen]
    have hfirst : row ≠ [] := by
      rintro rfl
      have hle := (dropLastEmpty_isPrefix
        (dropFirstEmpty ((init.map chomp ++ [last]).map (shifted k)))).length_le
      rw [hmap] at hle
      rw [tidied, ← hk, hmap] at heq
      have hlt := congrArg List.length heq
      simp only [dropFirstEmpty, List.length_cons] at hle hlt
      omega
    rw [hrows, List.map_append, List.map_singleton, List.map_map] at hmap
    obtain ⟨hinit, hlast⟩ := List.append_inj' hmap rfl
    have hzero : k = 0 := eq_zero_of_shifted_last h hlastmem (List.singleton_inj.1 hlast)
    have hreturn : ∀ r ∈ init, r.getLast? ≠ some '\r' := by
      intro r hr hend
      have hsame : shifted k (chomp r) = r := (map_eq_self_iff.1 hinit) r hr
      have hle := length_shifted_le k (chomp r)
      have hlt := length_chomp_lt hend
      rw [hsame] at hle
      omega
    have hchomp : init.map chomp = init := map_eq_self_iff.2 fun r hr ↦ chomp_eq_self (hreturn r hr)
    obtain ⟨line, hline, hblank, hstart⟩ := (shiftOf_eq_zero_iff hunit).1 (hk ▸ hzero)
    rw [hchomp, ← hrows] at hline
    refine ⟨hfirst, ⟨line, hline, ?_, hstart⟩, hreturn⟩
    rintro rfl
    cases hblank
  · rintro ⟨hfirst, ⟨r, hr, hne, hstart⟩, hreturn⟩
    have hchomp : init.map chomp = init := map_eq_self_iff.2 fun r hr ↦ chomp_eq_self (hreturn r hr)
    have hzero : k = 0 := by
      rw [hk, shiftOf_eq_zero_iff hunit, hchomp, ← hrows]
      refine ⟨r, hr, ?_, hstart⟩
      rw [← Bool.not_eq_true]
      exact mt (h.blank r hr) hne
    rw [tidied, ← hk, hzero, hchomp, ← hrows]
    have hsame : (row :: rows).map (shifted 0) = row :: rows :=
      map_eq_self_iff.2 fun r hr ↦ shifted_zero_of_blank (h.blank r hr)
    rw [hsame, dropFirstEmpty_eq_self (by simpa using hfirst), dropLastEmpty_eq_self h.last]

end Twice

/-- Outdenting twice is outdenting once exactly if nothing is left, or the first line is not empty,
some line that is not empty does not start with one indentation unit, and no line but the last ends
in a carriage return. -/
theorem outdent_outdent_eq_iff (tabSize : Nat) (code : String) :
    outdent tabSize (joinWith "\n" (outdent tabSize code)) = outdent tabSize code ↔
      outdent tabSize code = [] ∨
        (outdent tabSize code).head? ≠ some "" ∧
        (∃ line ∈ outdent tabSize code, line ≠ "" ∧
          ¬ List.replicate (max tabSize 1) ' ' <+: line.toList) ∧
        ∀ line ∈ (outdent tabSize code).dropLast, line.toList.getLast? ≠ some '\r' := by
  have hunit : 0 < max tabSize 1 := Nat.lt_of_lt_of_le Nat.one_pos (Nat.le_max_right ..)
  have hinj : Function.Injective String.ofList := fun a b hab ↦ String.ofList_inj.1 hab
  have htidy := isTidy_outdentChars tabSize code.toList
  unfold outdent
  cases hrows : outdentChars tabSize code.toList with
  | nil => simp [joinWith, outdentChars, lines, shiftLeft, dropFirstEmpty, dropLastEmpty]
  | cons row rows =>
    rw [hrows] at htidy
    have hjoined : (joinWith "\n" ((row :: rows).map String.ofList)).toList =
        row ++ rows.flatMap ('\n' :: ·) := by
      rw [List.map_cons, toList_joinWith_cons, List.flatMap_map]
      simp
    have hfirst : ((row :: rows).map String.ofList).head? ≠ some "" ↔ row ≠ [] := by simp
    have hsome : (∃ line ∈ (row :: rows).map String.ofList, line ≠ "" ∧
        ¬ List.replicate (max tabSize 1) ' ' <+: line.toList) ↔
        ∃ r ∈ row :: rows, r ≠ [] ∧ ¬ List.replicate (max tabSize 1) ' ' <+: r := by simp
    have hreturn : (∀ line ∈ ((row :: rows).map String.ofList).dropLast,
        line.toList.getLast? ≠ some '\r') ↔
        ∀ r ∈ (row :: rows).dropLast, r.getLast? ≠ some '\r' := by
      simp only [← List.map_dropLast, List.forall_mem_map, String.toList_ofList]
    rw [hjoined, outdentChars_eq, (List.map_injective_iff.2 hinj).eq_iff,
      tidied_joined_eq_iff htidy hunit, hfirst, hsome, hreturn]
    simp

end ParserGenerator.Module
