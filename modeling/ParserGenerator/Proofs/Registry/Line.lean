import ParserGenerator.Grammar.Basic
import ParserGenerator.Proofs.Text.Cuts
import ParserGenerator.Registry.Production

/-!
# Production lines

A line `lhs : symbols` is written with one blank between neighbours and read back by cutting at the
first colon and splitting at blanks. If the left-hand side is a word and every symbol is a word or a
quoted text, reading gives back what was written, so the only line that is refused is one with a
precedence mark that has no name to take.
-/

namespace ParserGenerator

open Text

namespace Symbols

/-- A text that can be told from its neighbours in a line: a word, or a text between two quotes. -/
def IsSymbol (cs : List Char) : Prop :=
  ∃ c rest, cs = c :: rest ∧
    ((isQuote c = true ∧ ∃ body, rest = body ++ [c] ∧ c ∉ body) ∨
      (isQuote c = false ∧ ∀ x ∈ cs, isBlank x = false))

theorem isBlank_of_isQuote {c : Char} (h : isQuote c = true) : isBlank c = false := by
  have hc : c = '\'' ∨ c = '"' := by simpa [isQuote] using h
  obtain rfl | rfl := hc
  · decide
  · decide

/-- A symbol in front of a blank or of the end is taken whole. -/
theorem take_append {c : Char} {rest after : List Char} (h : IsSymbol (c :: rest))
    (hafter : ∀ x ∈ after.head?, isBlank x = true) :
    take c (rest ++ after) = (c :: rest, after) := by
  obtain ⟨c', rest', heq, hkind⟩ := h
  obtain ⟨rfl, rfl⟩ := List.cons.inj heq
  rcases hkind with ⟨hquote, body, rfl, hbody⟩ | ⟨hquote, hword⟩
  · have hstop : ∀ x ∈ (c :: after).head?, x = c := by simp
    obtain ⟨htake, hdrop⟩ := span_of_not_mem hbody hstop
    unfold take
    rw [if_pos hquote, List.append_assoc, List.singleton_append, hdrop, htake]
    simp
  · have hne : ∀ x ∈ rest, (!isBlank x) = true := by
      intro x hx
      simp [hword x (List.mem_cons_of_mem _ hx)]
    have hstop : ∀ x ∈ after.head?, (!isBlank x) = false := by
      intro x hx
      simp [hafter x hx]
    obtain ⟨htake, hdrop⟩ := span_append hne hstop
    unfold take
    rw [if_neg (by simp [hquote]), htake, hdrop]

theorem ofChars_of_trimStart_cons {cs rest : List Char} {c : Char}
    (h : trimStart cs = c :: rest) : ofChars cs = (take c rest).1 :: ofChars (take c rest).2 := by
  rw [ofChars]
  split
  · simp_all
  · next c' rest' h' =>
    obtain ⟨rfl, rfl⟩ := List.cons.inj (h.symm.trans h')
    rfl

theorem ofChars_of_trimStart_nil {cs : List Char} (h : trimStart cs = []) : ofChars cs = [] := by
  rw [ofChars]
  split
  · rfl
  · simp_all

theorem ofChars_nil : ofChars [] = [] := ofChars_of_trimStart_nil rfl

theorem IsSymbol.head_not_blank {c : Char} {rest : List Char} (h : IsSymbol (c :: rest)) :
    isBlank c = false := by
  obtain ⟨c', rest', heq, hkind⟩ := h
  obtain ⟨rfl, rfl⟩ := List.cons.inj heq
  rcases hkind with ⟨hquote, -⟩ | ⟨-, hword⟩
  · exact isBlank_of_isQuote hquote
  · exact hword c List.mem_cons_self

theorem ofChars_cons_blank (cs : List Char) : ofChars (' ' :: cs) = ofChars cs := by
  have htrim : trimStart (' ' :: cs) = trimStart cs := List.dropWhile_cons_of_pos (by decide)
  cases h : trimStart cs with
  | nil => rw [ofChars_of_trimStart_nil h, ofChars_of_trimStart_nil (htrim.trans h)]
  | cons c rest => rw [ofChars_of_trimStart_cons h, ofChars_of_trimStart_cons (htrim.trans h)]

/-- A symbol in front of a blank or of the end is split off. -/
theorem ofChars_append {w after : List Char} (hw : IsSymbol w)
    (hafter : ∀ x ∈ after.head?, isBlank x = true) : ofChars (w ++ after) = w :: ofChars after := by
  obtain ⟨c, rest, rfl, -⟩ := id hw
  have htrim : trimStart (c :: rest ++ after) = c :: (rest ++ after) := by
    simp [trimStart, hw.head_not_blank]
  rw [ofChars_of_trimStart_cons htrim, take_append hw hafter]

theorem isBlank_head_flatMap {words : List (List Char)} {after : List Char}
    (hafter : ∀ x ∈ after.head?, isBlank x = true) :
    ∀ x ∈ (words.flatMap (' ' :: ·) ++ after).head?, isBlank x = true := by
  cases words with
  | nil => simpa using hafter
  | cons w words =>
    intro x hx
    obtain rfl : ' ' = x := by simpa using hx
    decide

/-- Symbols, each after a blank, are split off one by one. -/
theorem ofChars_flatMap_append {words : List (List Char)} {after : List Char}
    (h : ∀ w ∈ words, IsSymbol w) (hafter : ∀ x ∈ after.head?, isBlank x = true) :
    ofChars (words.flatMap (' ' :: ·) ++ after) = words ++ ofChars after := by
  induction words with
  | nil => rfl
  | cons w words ih =>
    rw [List.forall_mem_cons] at h
    rw [List.flatMap_cons, List.append_assoc, List.cons_append, ofChars_cons_blank,
      ofChars_append h.1 (isBlank_head_flatMap hafter), ih h.2, List.cons_append]

/-- Symbols, each after a blank, are split into themselves. -/
theorem ofChars_flatMap {words : List (List Char)} (h : ∀ w ∈ words, IsSymbol w) :
    ofChars (words.flatMap (' ' :: ·)) = words := by
  have hend : ∀ x ∈ ([] : List Char).head?, isBlank x = true := by simp
  have happ := ofChars_flatMap_append h hend
  rwa [List.append_nil, ofChars_nil, List.append_nil] at happ

theorem cons_joinWith (word : String) (words : List String) :
    ' ' :: (joinWith " " (word :: words)).toList =
      ((word :: words).map String.toList).flatMap (' ' :: ·) := by
  rw [toList_joinWith_cons, List.map_cons, List.flatMap_cons, List.flatMap_map]
  rfl

/-- Reading symbols back from a line. -/
theorem ofChars_joinWith {words : List String} (h : ∀ w ∈ words, IsSymbol w.toList) :
    (ofChars (' ' :: (joinWith " " words).toList)).map String.ofList = words := by
  cases words with
  | nil => rw [ofChars_of_trimStart_nil (by decide)]; rfl
  | cons word words =>
    rw [cons_joinWith, ofChars_flatMap]
    · exact map_ofList_toList (word :: words)
    · intro w hw
      obtain ⟨s, hs, rfl⟩ := List.mem_map.1 hw
      exact h s hs

end Symbols

namespace Production

/-- A left-hand side: a word without a colon. -/
structure IsHead (cs : List Char) : Prop where
  ne_nil : cs ≠ []
  no_colon : ':' ∉ cs
  no_blank : ∀ x ∈ cs, isBlank x = false

theorem cutAt_line {lhs : List Char} (h : ':' ∉ lhs) (rest : List Char) :
    cutAt ':' (lhs ++ ' ' :: ':' :: rest) = some (lhs ++ [' '], rest) := by
  have hblank : ':' ∉ lhs ++ [' '] := by simpa using h
  rw [← cutAt_append hblank rest, List.append_assoc, List.singleton_append]

theorem dropWhile_of_not {p : Char → Bool} {cs : List Char} (h : ∀ x ∈ cs, p x = false) :
    cs.dropWhile p = cs := by
  cases cs with
  | nil => rfl
  | cons c cs => simp [h c List.mem_cons_self]

theorem trim_head {lhs : List Char} (h : IsHead lhs) : trim (lhs ++ [' ']) = lhs := by
  have hstart : trimStart (lhs ++ [' ']) = lhs ++ [' '] := by
    obtain ⟨c, rest, rfl⟩ := List.exists_cons_of_ne_nil h.ne_nil
    simp [trimStart, h.no_blank c List.mem_cons_self]
  have hend : (lhs ++ [' ']).reverse.dropWhile isBlank = lhs.reverse := by
    have hblank : isBlank ' ' = true := by decide
    rw [List.reverse_append, List.reverse_singleton, List.singleton_append,
      List.dropWhile_cons_of_pos hblank]
    exact dropWhile_of_not fun x hx ↦ h.no_blank x (List.mem_reverse.1 hx)
  rw [trim, hstart, trimEnd, hend, List.reverse_reverse]

theorem isSymbol_of_isHead {lhs : List Char} (h : IsHead lhs) : isSymbol lhs = true := by
  have hany : lhs.any isBlank = false := by
    rw [List.any_eq_false]
    intro x hx
    simp [h.no_blank x hx]
  simp [isSymbol, h.ne_nil, hany]

theorem splitPrec_cons_of_ne {s : String} (h : s ≠ Symbols.precMark) (rest : List String) :
    splitPrec (s :: rest) = (splitPrec rest).map fun split ↦ (s :: split.1, split.2) := by
  cases rest with
  | nil => simp [splitPrec, h]
  | cons next rest => rw [splitPrec, if_neg h]

/-- A line with a blank in front of its colon reads as its left-hand side and the symbols behind the
colon. -/
theorem parse_of_toList {lhs line : String} {rest : List Char}
    (h : line.toList = lhs.toList ++ ' ' :: ':' :: rest) (hlhs : IsHead lhs.toList)
    (name : String) :
    parse name line =
      match splitPrec ((Symbols.ofChars rest).map String.ofList) with
      | some (rhs, prec) => .ok ⟨name, lhs, rhs, prec⟩
      | none => .error (.malformed name line) := by
  unfold parse
  rw [h, cutAt_line hlhs.no_colon]
  cases hsplit : splitPrec ((Symbols.ofChars rest).map String.ofList) <;>
    simp only [trim_head hlhs, isSymbol_of_isHead hlhs, if_true, String.ofList_toList, hsplit]

/-- The line of a production. -/
def lineOf (lhs : String) (symbols : List String) : String :=
  lhs ++ " : " ++ joinWith " " symbols

theorem toList_lineOf (lhs : String) (symbols : List String) :
    (lineOf lhs symbols).toList =
      lhs.toList ++ ' ' :: ':' :: ' ' :: (joinWith " " symbols).toList := by
  simp [lineOf]

/-- A written line reads back as its left-hand side and its symbols. -/
theorem parse_lineOf {lhs : String} {symbols : List String} (hlhs : IsHead lhs.toList)
    (hsymbols : ∀ s ∈ symbols, Symbols.IsSymbol s.toList) (name : String) :
    parse name (lineOf lhs symbols) =
      match splitPrec symbols with
      | some (rhs, prec) => .ok ⟨name, lhs, rhs, prec⟩
      | none => .error (.malformed name (lineOf lhs symbols)) := by
  rw [parse_of_toList (toList_lineOf lhs symbols) hlhs, Symbols.ofChars_joinWith hsymbols]

end Production

/-- The left-hand side of a rule, from its line. -/
theorem Rule.lhs_of_production {r : Rule} {lhs : String} {symbols : List String}
    (h : r.production = Production.lineOf lhs symbols) (hlhs : Production.IsHead lhs.toList) :
    r.lhs = lhs := by
  unfold Rule.lhs
  rw [h, Production.toList_lineOf, Production.cutAt_line hlhs.no_colon]
  simp only [Production.trim_head hlhs, String.ofList_toList]

/-- The symbols of a rule, from its line. -/
theorem Rule.split_rhs_of_production {r : Rule} {lhs : String} {symbols : List String}
    (h : r.production = Production.lineOf lhs symbols) (hlhs : Production.IsHead lhs.toList)
    (hsymbols : ∀ s ∈ symbols, Symbols.IsSymbol s.toList) : Symbols.split r.rhs = symbols := by
  have hrhs : r.rhs.toList = ' ' :: (joinWith " " symbols).toList := by
    unfold Rule.rhs
    rw [h, Production.toList_lineOf, Production.cutAt_line hlhs.no_colon]
    simp only [String.toList_ofList]
  rw [Symbols.split, hrhs, Symbols.ofChars_joinWith hsymbols]

end ParserGenerator
