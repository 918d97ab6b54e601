import Mathlib.Data.List.DropRight
import ParserGenerator.Proofs.Text.Splits
import ParserGenerator.Text.Blank

/-!
# Trimmed texts

A text is what is left of it after trimming, between two runs of white space.
-/

namespace ParserGenerator.Text

variable {a b cs : List Char}

/-- The white space that a text starts with. -/
def indentation (cs : List Char) : List Char := cs.takeWhile isBlank

theorem isBlankText_append : isBlankText (a ++ b) = (isBlankText a && isBlankText b) :=
  List.all_append

theorem isBlank_of_mem (h : isBlankText cs = true) : ∀ c ∈ cs, isBlank c = true :=
  List.all_eq_true.1 h

theorem isBlankText_indentation (cs : List Char) : isBlankText (indentation cs) = true :=
  List.all_takeWhile

theorem indentation_append_trimStart (cs : List Char) : indentation cs ++ trimStart cs = cs :=
  List.takeWhile_append_dropWhile

theorem trimStart_eq_nil_iff : trimStart cs = [] ↔ isBlankText cs = true := by
  rw [trimStart, List.dropWhile_eq_nil_iff, isBlankText, List.all_eq_true]

theorem trimEnd_append (h : isBlankText b = true) (a : List Char) :
    trimEnd (a ++ b) = trimEnd a := by
  have hblank : ∀ c ∈ b.reverse, isBlank c = true := fun c hc ↦
    isBlank_of_mem h c (List.mem_reverse.1 hc)
  rw [trimEnd, List.reverse_append, List.dropWhile_append_of_pos hblank, trimEnd]

/-- White space in front of a text is trimmed. -/
theorem trim_append_left (h : isBlankText a = true) (b : List Char) : trim (a ++ b) = trim b := by
  rw [trim, trimStart, List.dropWhile_append_of_pos (isBlank_of_mem h)]
  rfl

/-- White space behind a text is trimmed. -/
theorem trim_append_right (h : isBlankText b = true) (a : List Char) : trim (a ++ b) = trim a := by
  by_cases ha : isBlankText a = true
  · have hboth : trimStart (a ++ b) = [] := by
      rw [trimStart_eq_nil_iff, isBlankText_append, ha, h]
      rfl
    rw [trim, hboth, trim, trimStart_eq_nil_iff.2 ha]
  · have hstart : trimStart (a ++ b) = trimStart a ++ b := by
      have hne : trimStart a ≠ [] := mt trimStart_eq_nil_iff.1 ha
      rw [trimStart, List.dropWhile_append, if_neg (by simpa [trimStart] using hne)]
      rfl
    rw [trim, hstart, trimEnd_append h, trim]

/-- Trimming takes white space off both ends. -/
theorem exists_trim_append (cs : List Char) :
    ∃ lead trail, isBlankText lead = true ∧ isBlankText trail = true ∧
      lead ++ trim cs ++ trail = cs := by
  refine ⟨indentation cs, (trimStart cs).rtakeWhile isBlank, isBlankText_indentation cs, ?_, ?_⟩
  · rw [isBlankText, List.all_eq_true]
    exact fun c hc ↦ List.mem_rtakeWhile_imp hc
  · have hend : trim cs ++ (trimStart cs).rtakeWhile isBlank = trimStart cs :=
      List.rdropWhile_append_rtakeWhile ..
    rw [List.append_assoc, hend, indentation_append_trimStart]

@[simp] theorem trim_trim (cs : List Char) : trim (trim cs) = trim cs := by
  obtain ⟨lead, trail, hlead, htrail, happ⟩ := exists_trim_append cs
  calc trim (trim cs)
      = trim (lead ++ trim cs ++ trail) := by rw [trim_append_right htrail, trim_append_left hlead]
    _ = trim cs := by rw [happ]

theorem trim_eq_nil_iff : trim cs = [] ↔ isBlankText cs = true := by
  constructor
  · intro h
    obtain ⟨lead, trail, hlead, htrail, happ⟩ := exists_trim_append cs
    rw [← happ, h, List.append_nil, isBlankText_append, hlead, htrail]
    rfl
  · intro h
    rw [trim, trimStart_eq_nil_iff.2 h]
    rfl

/-- A trimmed text does not start with white space. -/
theorem head?_trim (cs : List Char) : ∀ c ∈ (trim cs).head?, isBlank c = false := by
  intro c hc
  obtain ⟨later, hlater⟩ : trim cs <+: trimStart cs := List.rdropWhile_prefix ..
  obtain ⟨rest, hrest⟩ := List.head?_eq_some_iff.1 hc
  apply head?_dropWhile isBlank cs
  rw [← trimStart, ← hlater, hrest]
  rfl

/-- A trimmed text does not end with white space. -/
theorem getLast?_trim (cs : List Char) : ∀ c ∈ (trim cs).getLast?, isBlank c = false := by
  intro c hc
  have hne : trim cs ≠ [] := by
    rintro h
    rw [h] at hc
    cases hc
  obtain rfl : (trim cs).getLast hne = c := by
    simpa [List.getLast?_eq_some_getLast hne] using hc
  exact Bool.eq_false_iff.2 (List.rdropWhile_last_not isBlank (trimStart cs) hne)

theorem mem_of_mem_trim {c : Char} (h : c ∈ trim cs) : c ∈ cs := by
  obtain ⟨lead, trail, -, -, happ⟩ := exists_trim_append cs
  rw [← happ]
  simp [h]

/-- The carriage return at the end of a row is trimmed with the white space. -/
theorem trim_chomp (cs : List Char) : trim (chomp cs) = trim cs := by
  unfold chomp
  split
  · next h =>
    obtain ⟨before, rfl⟩ := List.getLast?_eq_some_iff.1 h
    have hreturn : isBlankText ['\r'] = true := by decide
    rw [List.dropLast_concat, trim_append_right hreturn]
  · rfl

/-! ## Indentation -/

theorem indentation_append_left (h : isBlankText a = true) (b : List Char) :
    indentation (a ++ b) = a ++ indentation b :=
  List.takeWhile_append_of_pos (isBlank_of_mem h)

/-- The white space in front of a text that does not start with any. -/
theorem indentation_append (ha : isBlankText a = true) (hb : ∀ c ∈ b.head?, isBlank c = false) :
    indentation (a ++ b) = a :=
  (span_append (isBlank_of_mem ha) hb).1

end ParserGenerator.Text
