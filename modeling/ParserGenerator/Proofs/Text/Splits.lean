import ParserGenerator.Proofs.Text.Cuts

/-!
# Splitting joined texts

Texts that are joined by a separator are split into themselves if the separator occurs in none of
them, and a row in front of a line feed is read back as a line.
-/

namespace ParserGenerator.Text

/-! ## Parts -/

variable {sep : Char} {part : List Char}

theorem splitAt_of_not_mem (h : sep ∉ part) : splitAt sep part = [part] := by
  induction part with
  | nil => rfl
  | cons c part ih =>
    rw [List.mem_cons, not_or] at h
    rw [splitAt, if_neg (Ne.symm h.1), ih h.2]

theorem splitAt_append (h : sep ∉ part) (rest : List Char) :
    splitAt sep (part ++ sep :: rest) = part :: splitAt sep rest := by
  induction part with
  | nil => simp [splitAt]
  | cons c part ih =>
    rw [List.mem_cons, not_or] at h
    rw [List.cons_append, splitAt, if_neg (Ne.symm h.1), ih h.2]

theorem splitAt_flatMap {parts : List (List Char)} (h : sep ∉ part)
    (hparts : ∀ p ∈ parts, sep ∉ p) :
    splitAt sep (part ++ parts.flatMap (sep :: ·)) = part :: parts := by
  induction parts generalizing part with
  | nil => simpa using splitAt_of_not_mem h
  | cons p parts ih =>
    rw [List.forall_mem_cons] at hparts
    rw [List.flatMap_cons, List.cons_append, splitAt_append h, ih hparts.1 hparts.2]

/-! ## Lines -/

/-- A character that does not end a line is the first of its line. -/
theorem lines_cons {c : Char} {rest : List Char} (hc : c ≠ '\n')
    (hpair : c = '\r' → rest.head? ≠ some '\n') :
    lines (c :: rest) = match lines rest with
      | [] => [[c]]
      | line :: more => (c :: line) :: more := by
  apply lines.eq_4 c rest hc
  rintro after rfl rfl
  exact hpair rfl rfl

variable {row : List Char}

theorem lines_of_not_mem (h : '\n' ∉ row) (hne : row ≠ []) : lines row = [row] := by
  induction row with
  | nil => exact absurd rfl hne
  | cons c row ih =>
    rw [List.mem_cons, not_or] at h
    have hhead : row.head? ≠ some '\n' := fun heq ↦ h.2 (List.mem_of_mem_head? heq)
    rw [lines_cons (Ne.symm h.1) fun _ ↦ hhead]
    cases row with
    | nil => rfl
    | cons d row => rw [ih h.2 (List.cons_ne_nil d row)]

/-- A row that does not end with a carriage return is the line before its line feed. -/
theorem lines_append (h : '\n' ∉ row) (hend : row.getLast? ≠ some '\r') (rest : List Char) :
    lines (row ++ '\n' :: rest) = row :: lines rest := by
  induction row with
  | nil => rw [List.nil_append, lines]
  | cons c row ih =>
    rw [List.mem_cons, not_or] at h
    have hhead : c = '\r' → (row ++ '\n' :: rest).head? ≠ some '\n' := by
      rintro rfl
      cases row with
      | nil => exact absurd rfl hend
      | cons d row => exact fun heq ↦ h.2 (List.mem_of_mem_head? heq)
    rw [List.cons_append, lines_cons (Ne.symm h.1) hhead]
    cases row with
    | nil => rw [ih h.2 (by simp)]
    | cons d row => rw [ih h.2 (by simpa using hend)]

/-- A row without the carriage return at its end, if there is one. -/
def chomp (row : List Char) : List Char :=
  if row.getLast? = some '\r' then row.dropLast else row

theorem lines_append_return (h : '\n' ∉ row) (rest : List Char) :
    lines (row ++ '\r' :: '\n' :: rest) = row :: lines rest := by
  induction row with
  | nil => rw [List.nil_append, lines]
  | cons c row ih =>
    rw [List.mem_cons, not_or] at h
    have hhead : c = '\r' → (row ++ '\r' :: '\n' :: rest).head? ≠ some '\n' := by
      rintro rfl
      cases row with
      | nil => simp
      | cons d row => exact fun heq ↦ h.2 (List.mem_of_mem_head? heq)
    rw [List.cons_append, lines_cons (Ne.symm h.1) hhead, ih h.2]

/-- A row and its line feed are read as a line. -/
theorem lines_row (h : '\n' ∉ row) (rest : List Char) :
    lines (row ++ '\n' :: rest) = chomp row :: lines rest := by
  by_cases hend : row.getLast? = some '\r'
  · obtain ⟨before, rfl⟩ := List.getLast?_eq_some_iff.1 hend
    rw [List.mem_append, not_or] at h
    simpa [chomp] using lines_append_return h.1 rest
  · rw [lines_append h hend, chomp, if_neg hend]

theorem feed_not_mem_of_mem_lines {cs line : List Char} (h : line ∈ lines cs) : '\n' ∉ line := by
  fun_induction lines cs generalizing line with
  | case1 => cases h
  | case2 rest ih =>
    rcases List.mem_cons.1 h with rfl | h
    · simp
    · exact ih h
  | case3 rest ih =>
    rcases List.mem_cons.1 h with rfl | h
    · simp
    · exact ih h
  | case4 c rest hfeed _ hnil =>
    obtain rfl := List.mem_singleton.1 h
    simpa using Ne.symm hfeed
  | case5 c rest hfeed _ line' more hmore ih =>
    rw [hmore] at ih
    rcases List.mem_cons.1 h with rfl | h
    · simpa [Ne.symm hfeed] using ih List.mem_cons_self
    · exact ih (List.mem_cons_of_mem _ h)

end ParserGenerator.Text
