import ParserGenerator.Text.Lines

/-!
# Where texts are cut

Facts about the places at which a text is cut: a run of characters of one class ends at the first
character of another, a pair of characters is found at its first occurrence, and joined texts are
the first one followed by the others, each after the separator.
-/

namespace ParserGenerator.Text

/-! ## Runs -/

section Span

variable {p : Char → Bool} {word after : List Char}

/-- A word that a predicate holds of ends where the predicate fails. -/
theorem span_append (hword : ∀ x ∈ word, p x = true) (hafter : ∀ x ∈ after.head?, p x = false) :
    (word ++ after).takeWhile p = word ∧ (word ++ after).dropWhile p = after := by
  rw [List.takeWhile_append_of_pos hword, List.dropWhile_append_of_pos hword]
  cases after with
  | nil => simp
  | cons x after => simp [hafter x rfl]

theorem head?_dropWhile (p : Char → Bool) (cs : List Char) :
    ∀ x ∈ (cs.dropWhile p).head?, p x = false := by
  intro x hx
  have hhead := List.head?_dropWhile_not p cs
  rwa [Option.mem_def.1 hx] at hhead

end Span

theorem not_mem_takeWhile (sep : Char) (cs : List Char) : sep ∉ cs.takeWhile (· != sep) := by
  intro hmem
  simpa using List.all_eq_true.1 List.all_takeWhile sep hmem

/-- A text without the separator ends at a separator or at the end. -/
theorem span_of_not_mem {sep : Char} {before after : List Char} (h : sep ∉ before)
    (hafter : ∀ c ∈ after.head?, c = sep) :
    (before ++ after).takeWhile (· != sep) = before ∧
      (before ++ after).dropWhile (· != sep) = after := by
  have hne : ∀ x ∈ before, (x != sep) = true := by
    intro x hx
    simpa using fun (hxs : x = sep) ↦ h (hxs ▸ hx)
  exact span_append hne fun c hc ↦ by simpa using hafter c hc

/-- A text without the separator is cut off by the first separator after it. -/
theorem cutAt_append {sep : Char} {before : List Char} (h : sep ∉ before) (after : List Char) :
    cutAt sep (before ++ sep :: after) = some (before, after) := by
  have hstop : ∀ c ∈ (sep :: after).head?, c = sep := by simp
  obtain ⟨htake, hdrop⟩ := span_of_not_mem h hstop
  rw [cutAt, hdrop, htake]

/-- A run that ends before the end of a text ends at the separator. -/
theorem append_of_dropWhile {sep c : Char} {cs after : List Char}
    (h : cs.dropWhile (· != sep) = c :: after) :
    c = sep ∧ cs.takeWhile (· != sep) ++ sep :: after = cs := by
  have happ := List.takeWhile_append_dropWhile (p := (· != sep)) (l := cs)
  have hhead := head?_dropWhile (· != sep) cs
  rw [h] at happ hhead
  obtain rfl : c = sep := by simpa using hhead c rfl
  exact ⟨rfl, happ⟩

theorem append_of_cutAt {sep : Char} {cs before after : List Char}
    (h : cutAt sep cs = some (before, after)) : before ++ sep :: after = cs ∧ sep ∉ before := by
  rw [cutAt] at h
  cases hdrop : cs.dropWhile (· != sep) with
  | nil =>
    rw [hdrop] at h
    cases h
  | cons c rest =>
    rw [hdrop] at h
    obtain ⟨rfl, rfl⟩ := Prod.mk.inj (Option.some.inj h)
    exact ⟨(append_of_dropWhile hdrop).2, not_mem_takeWhile sep cs⟩

theorem not_mem_of_cutAt_eq_none {sep : Char} {cs : List Char} (h : cutAt sep cs = none) :
    sep ∉ cs := by
  rw [cutAt] at h
  cases hdrop : cs.dropWhile (· != sep) with
  | nil =>
    have happ := List.takeWhile_append_dropWhile (p := (· != sep)) (l := cs)
    rw [hdrop, List.append_nil] at happ
    exact happ ▸ not_mem_takeWhile sep cs
  | cons c rest =>
    rw [hdrop] at h
    cases h

/-! ## Pairs -/

theorem not_infix_of_cutAtPair {a b : Char} {cs before after : List Char}
    (h : cutAtPair a b cs = some (before, after)) : ¬ [a, b] <:+: before := by
  fun_induction cutAtPair a b cs generalizing before with
  | case1 x y rest hxy =>
    obtain ⟨rfl, -⟩ := Prod.mk.inj (Option.some.inj h)
    simp
  | case2 x y rest hxy ih =>
    obtain ⟨⟨body, tail⟩, hcut, heq⟩ := Option.map_eq_some_iff.1 h
    obtain ⟨rfl, rfl⟩ := Prod.mk.inj heq
    have happ := append_of_cutAtPair hcut
    rw [List.infix_cons_iff]
    rintro (hhead | hinside)
    · cases body with
      | nil => simp at hhead
      | cons c body =>
        obtain ⟨rfl, -⟩ := List.cons.inj happ
        simp only [List.cons_prefix_cons] at hhead
        exact hxy ⟨hhead.1.symm, hhead.2.1.symm⟩
    · exact ih hcut hinside
  | case3 cs hcs => simp at h

theorem not_infix_of_cutAtPair_eq_none {a b : Char} {cs : List Char}
    (h : cutAtPair a b cs = none) : ¬ [a, b] <:+: cs := by
  fun_induction cutAtPair a b cs with
  | case1 x y rest hxy => simp at h
  | case2 x y rest hxy ih =>
    rw [List.infix_cons_iff]
    rintro (hhead | hinside)
    · simp only [List.cons_prefix_cons] at hhead
      exact hxy ⟨hhead.1.symm, hhead.2.1.symm⟩
    · exact ih (Option.map_eq_none_iff.1 h) hinside
  | case3 cs hcs =>
    intro hinside
    have hlen := hinside.length_le
    cases cs with
    | nil => simp at hlen
    | cons x cs =>
      cases cs with
      | nil => simp at hlen
      | cons y rest => exact hcs x y rest rfl

/-- A text without the pair is cut off by the first pair after it. -/
theorem cutAtPair_append {a b : Char} (hab : a ≠ b) {body : List Char}
    (h : ¬ [a, b] <:+: body) (after : List Char) :
    cutAtPair a b (body ++ a :: b :: after) = some (body, after) := by
  induction body with
  | nil => simp [cutAtPair]
  | cons x body ih =>
    rw [List.infix_cons_iff, not_or] at h
    have hbody := ih h.2
    cases body with
    | nil =>
      have hx : ¬ (x = a ∧ a = b) := fun hxa ↦ hab hxa.2
      simp [cutAtPair, hx]
    | cons y body =>
      have hxy : ¬ (x = a ∧ y = b) := by
        rintro ⟨rfl, rfl⟩
        exact h.1 (by simp)
      rw [List.cons_append] at hbody
      rw [List.cons_append, List.cons_append, cutAtPair, if_neg hxy, hbody]
      rfl

/-! ## Joined texts -/

theorem toList_joinWith_cons (sep word : String) (words : List String) :
    (joinWith sep (word :: words)).toList =
      word.toList ++ words.flatMap fun w ↦ sep.toList ++ w.toList := by
  induction words generalizing word with
  | nil => simp [joinWith]
  | cons next words ih =>
    rw [joinWith, String.toList_append, String.toList_append, ih, List.flatMap_cons]
    · simp
    · simp

theorem map_ofList_toList (words : List String) :
    (words.map String.toList).map String.ofList = words := by
  simp [Function.comp_def]

theorem map_toList_ofList (words : List (List Char)) :
    (words.map String.ofList).map String.toList = words := by
  simp [Function.comp_def]

end ParserGenerator.Text
