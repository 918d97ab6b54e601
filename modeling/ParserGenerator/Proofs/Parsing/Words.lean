import ParserGenerator.Parsing.Word
import ParserGenerator.Proofs.Text.Splits

/-!
# The words of a joined text

Texts without blanks and line feeds that are joined by single spaces are the words of the line that
they make up.
-/

namespace ParserGenerator.Words

open Text

/-- A text that stands for one word between spaces. -/
def IsWord (text : String) : Prop := text ≠ "" ∧ ' ' ∉ text.toList ∧ '\n' ∉ text.toList

variable {β : Type} (classify : String → String) (f : String → String → β)

theorem map_ofParts {texts : List String} (h : ∀ t ∈ texts, t ≠ "") (line column : Nat) :
    (ofParts classify line column (texts.map String.toList)).map (fun w ↦ f w.kind w.text) =
      texts.map fun t ↦ f (classify t) t := by
  induction texts generalizing column with
  | nil => rfl
  | cons t texts ih =>
    rw [List.forall_mem_cons] at h
    have hne : t.toList.isEmpty = false := by simpa using h.1
    rw [List.map_cons, ofParts, hne]
    simp [ih h.2]

/-- A line feed in joined texts is one of a text. -/
theorem feed_not_mem_flatMap {texts : List String} (h : ∀ t ∈ texts, '\n' ∉ t.toList) :
    '\n' ∉ (texts.map String.toList).flatMap (' ' :: ·) := by
  intro hmem
  obtain ⟨cs, hcs, hfeed⟩ := List.mem_flatMap.1 hmem
  obtain ⟨t, ht, rfl⟩ := List.mem_map.1 hcs
  rcases List.mem_cons.1 hfeed with hfeed | hfeed
  · exact absurd hfeed (by decide)
  · exact h t ht hfeed

/-- What a function of kind and text makes of the words of joined texts. -/
theorem map_ofString_joinWith {texts : List String} (h : ∀ t ∈ texts, IsWord t) :
    (ofString classify (joinWith " " texts)).map (fun w ↦ f w.kind w.text) =
      texts.map fun t ↦ f (classify t) t := by
  cases texts with
  | nil => rfl
  | cons t texts =>
    have hline : (joinWith " " (t :: texts)).toList =
        t.toList ++ (texts.map String.toList).flatMap (' ' :: ·) := by
      rw [toList_joinWith_cons, List.flatMap_map]
      rfl
    rw [List.forall_mem_cons] at h
    have hfeed : '\n' ∉ (joinWith " " (t :: texts)).toList := by
      rw [hline, List.mem_append, not_or]
      exact ⟨h.1.2.2, feed_not_mem_flatMap fun t ht ↦ (h.2 t ht).2.2⟩
    have hne : (joinWith " " (t :: texts)).toList ≠ [] := by
      rw [hline]
      simpa using fun hempty : t = "" ↦ absurd hempty h.1.1
    have hparts : splitAt ' ' (joinWith " " (t :: texts)).toList =
        (t :: texts).map String.toList := by
      rw [hline, splitAt_flatMap h.1.2.1]
      · rfl
      · intro cs hcs
        obtain ⟨t, ht, rfl⟩ := List.mem_map.1 hcs
        exact (h.2 t ht).2.1
    rw [ofString, lines_of_not_mem hfeed hne, ofLines, ofLines, List.append_nil, hparts]
    apply map_ofParts
    exact List.forall_mem_cons.2 ⟨h.1.1, fun t ht ↦ (h.2 t ht).1⟩

end ParserGenerator.Words
