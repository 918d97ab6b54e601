import ParserGenerator.Module.Render
import ParserGenerator.Proofs.Derivation.Warnings
import ParserGenerator.Proofs.Module.Outdent
import ParserGenerator.Proofs.Registry.Agreement

/-!
# Actions in handlers

The code between the braces of an action becomes the body of a handler in three passes: code on the
line of the opening brace moves to a line of its own, the lines are outdented, and they are indented
to the depth of the handler. None of the passes loses a line, changes the order of the lines or
changes more of a line than the white space around it: `Kept`.
-/

namespace ParserGenerator

open Text ParserGenerator.Module

namespace Action

/-! ## Lines that are not blank -/

/-- The rows that are not blank. -/
def written (rows : List (List Char)) : List (List Char) := rows.filter (!isBlankText ·)

theorem written_append (a b : List (List Char)) : written (a ++ b) = written a ++ written b :=
  List.filter_append ..

theorem written_singleton (row : List Char) :
    written [row] = if isBlankText row then [] else [row] := by
  unfold written
  cases h : isBlankText row <;> simp [h]

theorem isBlankText_of_mem_written {rows : List (List Char)} {row : List Char}
    (h : row ∈ written rows) : isBlankText row = false := by
  simpa using (List.mem_filter.1 h).2

/-- Among the lines, this is the first with the least indentation, in bytes. -/
def IsLeastIndented (lines : List (List Char)) (line : List Char) : Prop :=
  ∃ before after, lines = before ++ line :: after ∧
    (∀ l ∈ before, byteLength (indentation line) < byteLength (indentation l)) ∧
    ∀ l ∈ after, byteLength (indentation line) ≤ byteLength (indentation l)

/-- One more line takes the place of the least indented line if it is indented less. -/
theorem IsLeastIndented.concat {lines : List (List Char)} {line : List Char}
    (h : IsLeastIndented lines line) (next : List Char) :
    IsLeastIndented (lines ++ [next])
      (if byteLength (indentation next) < byteLength (indentation line) then next else line) := by
  obtain ⟨before, after, rfl, hbefore, hafter⟩ := h
  split
  · next hlt =>
    refine ⟨before ++ line :: after, [], rfl, ?_, by simp⟩
    intro l hl
    rcases List.mem_append.1 hl with hl | hl
    · exact Nat.lt_trans hlt (hbefore l hl)
    · rcases List.mem_cons.1 hl with rfl | hl
      · exact hlt
      · exact Nat.lt_of_lt_of_le hlt (hafter l hl)
  · next hle =>
    refine ⟨before, after ++ [next], by simp, hbefore, ?_⟩
    intro l hl
    rcases List.mem_append.1 hl with hl | hl
    · exact hafter l hl
    · rw [List.mem_singleton.1 hl]
      exact Nat.not_lt.1 hle

theorem exists_foldl_isLeastIndented {lines : List (List Char)} {line : List Char}
    (h : IsLeastIndented lines line) (more : List (List Char)) :
    ∃ least, IsLeastIndented (lines ++ more) least ∧
      (more.map indentation).foldl
        (fun best i ↦ if byteLength i < byteLength best then i else best) (indentation line) =
        indentation least := by
  induction more generalizing lines line with
  | nil => exact ⟨line, by simpa using h, rfl⟩
  | cons next more ih =>
    obtain ⟨least, hleast, hfold⟩ := ih (h.concat next)
    refine ⟨least, by simpa using hleast, ?_⟩
    rw [List.map_cons, List.foldl_cons, ← hfold]
    split <;> rfl

/-- The indentation of moved code is that of the first least indented line, if there is a line. -/
theorem leastIndent_eq (lines : List (List Char)) :
    (written lines = [] ∧ leastIndent lines = []) ∨
      ∃ line, IsLeastIndented (written lines) line ∧ leastIndent lines = indentation line := by
  have hindents : (lines.filter (!isBlankText ·)).map (·.takeWhile isBlank) =
      (written lines).map indentation := rfl
  unfold leastIndent
  rw [hindents]
  cases hwritten : written lines with
  | nil => exact .inl ⟨rfl, rfl⟩
  | cons first more =>
    have hfirst : IsLeastIndented [first] first := ⟨[], [], rfl, by simp, by simp⟩
    exact .inr (exists_foldl_isLeastIndented hfirst more)

theorem isBlankText_leastIndent (lines : List (List Char)) :
    isBlankText (leastIndent lines) = true := by
  rcases leastIndent_eq lines with ⟨-, h⟩ | ⟨line, -, h⟩
  · rw [h]
    rfl
  · rw [h]
    exact isBlankText_indentation line

/-! ## The body of an action -/

theorem inner_braces (code : List Char) : inner ('{' :: code ++ ['}']) = code := by
  simp [inner]

theorem body_of_not_mem {code : List Char} (h : '\n' ∉ code) :
    body ('{' :: code ++ ['}']) = trim code := by
  have hcut : cutAt '\n' code = none := by
    unfold cutAt
    rw [List.dropWhile_eq_nil_iff.2]
    intro c hc
    simpa using fun (heq : c = '\n') ↦ h (heq ▸ hc)
  simp only [body, inner_braces, hcut]

variable {first rest : List Char}

theorem body_of_append (h : '\n' ∉ first) :
    body ('{' :: (first ++ '\n' :: rest) ++ ['}']) =
      if isBlankText first then first ++ '\n' :: rest
      else '\n' :: leastIndent (lines rest) ++ trim first ++ '\n' :: rest := by
  simp only [body, inner_braces, cutAt_append h]

/-! ## What is kept of the lines -/

theorem isBlankText_chomp (row : List Char) : isBlankText (chomp row) = isBlankText row := by
  have hiff : isBlankText (chomp row) = true ↔ isBlankText row = true := by
    rw [← trim_eq_nil_iff, trim_chomp, trim_eq_nil_iff]
  rw [Bool.eq_iff_iff, hiff]

theorem written_lines_of_not_mem {cs : List Char} (h : '\n' ∉ cs) :
    written (lines cs) = written [cs] := by
  cases cs with
  | nil => rfl
  | cons c cs => rw [lines_of_not_mem h (List.cons_ne_nil c cs)]

theorem written_lines_append (h : '\n' ∉ first) :
    written (lines (first ++ '\n' :: rest)) =
      (if isBlankText first then [] else [chomp first]) ++ written (lines rest) := by
  rw [lines_row h, ← List.singleton_append, written_append, written_singleton, isBlankText_chomp]

/-- Code that has been moved to a line of its own is the first line that is not blank. -/
theorem written_lines_moved (h : '\n' ∉ first) (hfirst : isBlankText first = false)
    {lead : List Char} (hlead : isBlankText lead = true) (hfeed : '\n' ∉ lead) :
    written (lines ('\n' :: lead ++ trim first ++ '\n' :: rest)) =
      (lead ++ trim first) :: written (lines rest) := by
  have hblank : isBlankText (lead ++ trim first) = false := by
    rw [← Bool.not_eq_true, ← trim_eq_nil_iff, trim_append_left hlead, trim_trim, trim_eq_nil_iff,
      hfirst]
    exact Bool.false_ne_true
  have hne : trim first ≠ [] := by
    rw [Ne, trim_eq_nil_iff, hfirst]
    exact Bool.false_ne_true
  have hend : (lead ++ trim first).getLast? ≠ some '\r' := by
    rw [List.getLast?_append_of_ne_nil _ hne]
    intro hreturn
    exact absurd (getLast?_trim first _ hreturn) (by decide)
  have hmem : '\n' ∉ lead ++ trim first := by
    rw [List.mem_append, not_or]
    exact ⟨hfeed, fun hmem ↦ h (mem_of_mem_trim hmem)⟩
  have hopening : lines ('\n' :: lead ++ trim first ++ '\n' :: rest) =
      [] :: (lead ++ trim first) :: lines rest := by
    rw [List.append_assoc, List.cons_append, ← List.append_assoc, lines, lines_append hmem hend]
  rw [hopening, ← List.singleton_append, written_append, ← List.singleton_append (l := lines rest),
    written_append, written_singleton, written_singleton, hblank]
  rfl

/-! ## What is kept by the passes -/

theorem feed_not_mem_leastIndent (cs : List Char) : '\n' ∉ leastIndent (lines cs) := by
  rcases leastIndent_eq (lines cs) with ⟨-, h⟩ | ⟨line, ⟨before, after, hwritten, -⟩, h⟩
  · rw [h]
    exact List.not_mem_nil
  · have hline : line ∈ written (lines cs) := by
      rw [hwritten]
      exact List.mem_append_right _ List.mem_cons_self
    rw [h]
    intro hmem
    exact feed_not_mem_of_mem_lines (List.mem_filter.1 hline).1
      ((List.takeWhile_sublist isBlank).subset hmem)

theorem written_dropFirstEmpty (rows : List (List Char)) :
    written (dropFirstEmpty rows) = written rows := by
  unfold dropFirstEmpty
  split <;> rfl

theorem written_dropLastEmpty (rows : List (List Char)) :
    written (dropLastEmpty rows) = written rows := by
  have happ : dropLastEmpty rows ++ rows.rtakeWhile List.isEmpty = rows :=
    List.rdropWhile_append_rtakeWhile ..
  have hnil : written (rows.rtakeWhile List.isEmpty) = [] := by
    apply List.filter_eq_nil_iff.2
    intro row hrow
    rw [List.isEmpty_iff.1 (List.mem_rtakeWhile_imp hrow)]
    decide
  calc written (dropLastEmpty rows)
      = written (dropLastEmpty rows ++ rows.rtakeWhile List.isEmpty) := by
        rw [written_append, hnil, List.append_nil]
    _ = written rows := by rw [happ]

theorem isBlankText_shifted {k : Nat} {row : List Char}
    (h : isBlankText row = false → List.replicate k ' ' <+: row) :
    isBlankText (shifted k row) = isBlankText row := by
  unfold shifted
  cases hblank : isBlankText row with
  | true => rfl
  | false => rw [if_neg Bool.false_ne_true, isBlankText_drop (h hblank), hblank]

theorem written_map_shifted {k : Nat} {rows : List (List Char)}
    (h : ∀ row ∈ written rows, List.replicate k ' ' <+: row) :
    written (rows.map (shifted k)) = (written rows).map (·.drop k) := by
  have hspaces : ∀ row ∈ rows, isBlankText row = false → List.replicate k ' ' <+: row :=
    fun row hrow hblank ↦ h row (List.mem_filter.2 ⟨hrow, by simp [hblank]⟩)
  calc written (rows.map (shifted k))
      = (rows.filter fun row ↦ !isBlankText (shifted k row)).map (shifted k) := List.filter_map
    _ = (written rows).map (shifted k) := by
        congr 1
        apply List.filter_congr
        intro row hrow
        rw [isBlankText_shifted (hspaces row hrow)]
    _ = (written rows).map (·.drop k) := by
        apply List.map_congr_left
        intro row hrow
        rw [shifted, isBlankText_of_mem_written hrow, if_neg Bool.false_ne_true]

/-- Outdenting takes the same number of spaces off every line that is not blank. -/
theorem written_outdentChars (tabSize : Nat) (code : List Char) :
    ∃ k, (k = 0 ∨ k = max tabSize 1) ∧
      (∀ line ∈ written (lines code), List.replicate k ' ' <+: line) ∧
      written (outdentChars tabSize code) = (written (lines code)).map (·.drop k) := by
  have hspaces : ∀ line ∈ written (lines code),
      List.replicate (shiftOf (max tabSize 1) (lines code)) ' ' <+: line := by
    intro line hline
    exact replicate_shiftOf_isPrefix (List.mem_filter.1 hline).1 (isBlankText_of_mem_written hline)
  refine ⟨shiftOf (max tabSize 1) (lines code), shiftOf_eq _ _, hspaces, ?_⟩
  rw [outdentChars_eq, tidied, written_dropLastEmpty, written_dropFirstEmpty,
    written_map_shifted hspaces]

/-! ## The lines of a handler -/

/-- The white space in front of the body of a handler: two indentation units. -/
def margin (tabSize : Nat) : List Char := List.replicate (2 * max tabSize 1) ' '

/-- The rows that a handler has for its code. -/
def bodyRows (tabSize : Nat) (code : List Char) : List (List Char) :=
  (outdentChars tabSize code).map fun row ↦ if row = [] then [] else margin tabSize ++ row

theorem isBlankText_margin (tabSize : Nat) : isBlankText (margin tabSize) = true :=
  isBlankText_replicate _

theorem written_bodyRows (tabSize : Nat) (code : List Char) :
    ∃ k, (k = 0 ∨ k = max tabSize 1) ∧
      (∀ line ∈ written (lines code), List.replicate k ' ' <+: line) ∧
      written (bodyRows tabSize code) =
        (written (lines code)).map (fun line ↦ margin tabSize ++ line.drop k) := by
  obtain ⟨k, hk, hspaces, hwritten⟩ := written_outdentChars tabSize code
  refine ⟨k, hk, hspaces, ?_⟩
  have hindent (rows : List (List Char)) :
      written (rows.map fun row ↦ if row = [] then [] else margin tabSize ++ row) =
        (written rows).map (margin tabSize ++ ·) := by
    induction rows with
    | nil => rfl
    | cons row rows ih =>
      rw [List.map_cons, ← List.singleton_append, written_append, ih, written_singleton,
        ← List.singleton_append (l := rows), written_append, written_singleton, List.map_append]
      congr 1
      by_cases hrow : row = []
      · simp [hrow, isBlankText]
      · rw [if_neg hrow, isBlankText_append, isBlankText_margin, Bool.true_and]
        split <;> rfl
  rw [bodyRows, hindent, hwritten, List.map_map]
  rfl

theorem toList_concat_bodyLine (o : Options) (code : String) :
    (concat ((outdent o.tabSize code).map (bodyLine (o.indent 2)))).toList =
      (bodyRows o.tabSize code.toList).flatMap (· ++ ['\n']) := by
  unfold outdent bodyRows
  induction outdentChars o.tabSize code.toList with
  | nil => rfl
  | cons row rows ih =>
    rw [List.map_cons, List.map_cons, concat, String.toList_append, ih, List.map_cons,
      List.flatMap_cons]
    congr 1
    by_cases hrow : row = []
    · simp [hrow, bodyLine]
    · simp [hrow, bodyLine, margin, Options.indent]

/-! ## Actions on several lines -/

theorem prefix_indentation {k : Nat} {line : List Char} (h : List.replicate k ' ' <+: line) :
    List.replicate k ' ' <+: indentation line := by
  obtain ⟨rest, rfl⟩ := h
  rw [indentation_append_left (isBlankText_replicate k)]
  exact List.prefix_append ..

theorem indentation_drop {k : Nat} {line : List Char} (h : List.replicate k ' ' <+: line) :
    indentation (line.drop k) = (indentation line).drop k := by
  obtain ⟨rest, rfl⟩ := h
  rw [indentation_append_left (isBlankText_replicate k), List.drop_left' List.length_replicate,
    List.drop_left' List.length_replicate]

theorem trim_drop {k : Nat} {line : List Char} (h : List.replicate k ' ' <+: line) :
    trim (line.drop k) = trim line := by
  obtain ⟨rest, rfl⟩ := h
  rw [List.drop_left' List.length_replicate, trim_append_left (isBlankText_replicate k)]

/-- The rows for the code on the line of the opening brace. There is no row without code, and else
one with the white space in front of the least indented line after it, as that line is written, or
with the margin alone if there is no such line. -/
def Opens (tabSize k : Nat) (first : List Char) (later opening : List (List Char)) : Prop :=
  if isBlankText first then opening = []
  else
    ∃ row, opening = [row] ∧ row = indentation row ++ trim first ∧
      ((later = [] ∧ indentation row = margin tabSize) ∨
        ∃ line, IsLeastIndented later line ∧
          indentation row = indentation (margin tabSize ++ line.drop k))

/-- What the rows of a handler keep of the code between the braces of an action. -/
structure Kept (tabSize : Nat) (code : List Char) (rows : List (List Char)) : Prop where
  feed : ∀ row ∈ rows, '\n' ∉ row
  /-- Apart from white space around them and blank lines, the lines are the same. -/
  lines : (written rows).map trim = (written (lines code)).map trim
  /-- All lines after the first lose the same number of spaces and get the margin. -/
  several : ∀ first rest, '\n' ∉ first → code = first ++ '\n' :: rest →
    ∃ k opening, (k = 0 ∨ k = max tabSize 1) ∧
      (∀ line ∈ written (Text.lines rest), List.replicate k ' ' <+: line) ∧
      written rows = opening ++
        (written (Text.lines rest)).map (fun line ↦ margin tabSize ++ line.drop k) ∧
      Opens tabSize k first (written (Text.lines rest)) opening

theorem feed_not_mem_bodyRows (tabSize : Nat) (code : List Char) :
    ∀ row ∈ bodyRows tabSize code, '\n' ∉ row := by
  intro row hrow
  obtain ⟨inner, hinner, rfl⟩ := List.mem_map.1 hrow
  split
  · exact List.not_mem_nil
  · rw [List.mem_append, not_or]
    refine ⟨?_, (isTidy_outdentChars tabSize code).feed inner hinner⟩
    intro hmem
    exact absurd (List.eq_of_mem_replicate hmem) (by decide)

/-- The lines of a body are those of the code, with the white space around them trimmed. -/
theorem map_trim_written_body (code : List Char) :
    (written (lines (body ('{' :: code ++ ['}'])))).map trim = (written (lines code)).map trim := by
  by_cases hfeed : '\n' ∈ code
  · obtain ⟨first, rest, rfl, hfirst⟩ := List.eq_append_cons_of_mem hfeed
    rw [body_of_append hfirst]
    cases hblank : isBlankText first with
    | true => rfl
    | false =>
      have hlead := isBlankText_leastIndent (lines rest)
      rw [if_neg Bool.false_ne_true, written_lines_append hfirst,
        written_lines_moved hfirst hblank hlead (feed_not_mem_leastIndent rest), hblank]
      simp [trim_append_left hlead, trim_chomp]
  · have htrim : '\n' ∉ trim code := fun hmem ↦ hfeed (mem_of_mem_trim hmem)
    have hblank : isBlankText (trim code) = isBlankText code := by
      rw [Bool.eq_iff_iff, ← trim_eq_nil_iff, trim_trim, trim_eq_nil_iff]
    rw [body_of_not_mem hfeed, written_lines_of_not_mem hfeed, written_lines_of_not_mem htrim,
      written_singleton, written_singleton, hblank]
    cases isBlankText code <;> simp

/-- The row of moved code starts with the white space of the least indented line after it. -/
theorem opens_moved {tabSize k : Nat} {first rest : List Char}
    (hfirst : isBlankText first = false)
    (hspaces : List.replicate k ' ' <+: leastIndent (lines rest) ++ trim first)
    (hlater : ∀ line ∈ written (lines rest), List.replicate k ' ' <+: line) :
    Opens tabSize k first (written (lines rest))
      [margin tabSize ++ (leastIndent (lines rest) ++ trim first).drop k] := by
  have hlead := isBlankText_leastIndent (lines rest)
  have hmargin := isBlankText_margin tabSize
  have hindentation :
      indentation (margin tabSize ++ (leastIndent (lines rest) ++ trim first).drop k) =
        margin tabSize ++ (leastIndent (lines rest)).drop k := by
    rw [indentation_append_left hmargin, indentation_drop hspaces,
      indentation_append hlead (head?_trim first)]
  have hle : k ≤ (leastIndent (lines rest)).length := by
    have hprefix := prefix_indentation hspaces
    rw [indentation_append hlead (head?_trim first)] at hprefix
    simpa using hprefix.length_le
  unfold Opens
  rw [hfirst, if_neg Bool.false_ne_true]
  refine ⟨_, rfl, ?_, ?_⟩
  · rw [hindentation, List.drop_append_of_le_length hle, List.append_assoc]
  · rw [hindentation]
    rcases leastIndent_eq (lines rest) with ⟨hnone, hnil⟩ | ⟨line, hleast, hline⟩
    · exact .inl ⟨hnone, by simp [hnil]⟩
    · right
      refine ⟨line, hleast, ?_⟩
      obtain ⟨before, after, hwritten, -⟩ := hleast
      have hmem : line ∈ written (lines rest) := by simp [hwritten]
      rw [hline, indentation_append_left hmargin, indentation_drop (hlater line hmem)]

/-- A handler keeps the code between the braces of its action. -/
theorem kept_body (tabSize : Nat) (code : List Char) :
    Kept tabSize code (bodyRows tabSize (body ('{' :: code ++ ['}']))) := by
  obtain ⟨k, hk, hspaces, hrows⟩ := written_bodyRows tabSize (body ('{' :: code ++ ['}']))
  refine ⟨feed_not_mem_bodyRows _ _, ?_, ?_⟩
  · rw [hrows, List.map_map, ← map_trim_written_body]
    apply List.map_congr_left
    intro line hline
    simp only [Function.comp_apply]
    rw [trim_append_left (isBlankText_margin tabSize), trim_drop (hspaces line hline)]
  · rintro first rest hfirst rfl
    rw [body_of_append hfirst] at hrows hspaces
    cases hblank : isBlankText first with
    | true =>
      rw [hblank, if_pos rfl, written_lines_append hfirst, hblank, if_pos rfl, List.nil_append]
        at hrows hspaces
      refine ⟨k, [], hk, hspaces, ?_, by simp [Opens, hblank]⟩
      rw [body_of_append hfirst, hblank, if_pos rfl, hrows]
      rfl
    | false =>
      rw [hblank, if_neg Bool.false_ne_true, written_lines_moved hfirst hblank
        (isBlankText_leastIndent _) (feed_not_mem_leastIndent rest)] at hrows hspaces
      have hlater : ∀ line ∈ written (lines rest), List.replicate k ' ' <+: line :=
        fun line hline ↦ hspaces line (List.mem_cons_of_mem _ hline)
      refine ⟨k, _, hk, hlater, ?_, opens_moved hblank (hspaces _ List.mem_cons_self) hlater⟩
      rw [body_of_append hfirst, hblank, if_neg Bool.false_ne_true, hrows]
      rfl

end Action

/-! ## Handlers -/

namespace Module

/-- The lines of a handler before its code. -/
def handlerHead (o : Options) (e : Entry) : String :=
  o.indent 1 ++ "/// " ++ e.production ++ "\n" ++
  o.indent 1 ++ "fn " ++ e.handler ++ "(p: &mut Reduction<Value>) \x7b\n"

/-- The line of a handler after its code. -/
def handlerEnd (o : Options) : String := o.indent 1 ++ "\x7d\n"

theorem toList_handlerBlock (o : Options) (e : Entry) :
    (handlerBlock o e).toList = (handlerHead o e).toList ++
      (Action.bodyRows o.tabSize e.code.toList).flatMap (· ++ ['\n']) ++ (handlerEnd o).toList := by
  have hblock : handlerBlock o e = handlerHead o e ++
      concat ((outdent o.tabSize e.code).map (bodyLine (o.indent 2))) ++ handlerEnd o := by
    simp only [handlerBlock, handlerHead, handlerEnd, String.append_assoc]
  rw [hblock, String.toList_append, String.toList_append, Action.toList_concat_bodyLine]

end Module

open ParserGenerator.Derivation Lexer

/-- The action at the end of an alternative becomes the body of the handler of its rule, and only
white space is lost or moved. Every other action brings one warning, which names the rule. -/
theorem handlers_keep_actions {source : String} {parsed : Grammar.Parsed}
    (h : (Grammar.parse source).result = .ok parsed) (o : Options) :
    let g := parsed.grammar.request o.families
    value? g o "productions" = some (joinWith "\n" ((entries g).map (handlerBlock o))) ∧
    (∃ file : File, file.tokens = tokensOf (delivered source)) ∧
    ∀ file : File, file.tokens = tokensOf (delivered source) →
      g.rules = file.places.map Place.rule ∧
      (∀ p ∈ file.places, ∀ text, p.alt.getLast? = some (.action text) →
        ∃ code rows, text.toList = '{' :: code ++ ['}'] ∧
          Entry.ofRule p.rule ∈ entries g ∧
          (handlerBlock o (Entry.ofRule p.rule)).toList =
            (handlerHead o (Entry.ofRule p.rule)).toList ++
              rows.flatMap (· ++ ['\n']) ++ (handlerEnd o).toList ∧
          Action.Kept o.tabSize code rows) ∧
      (Grammar.parse source).events.filterMap Event.droppedIn? =
        file.places.flatMap Place.warnings := by
  intro g
  obtain ⟨hfailures, derived, hderived, -⟩ := (Grammar.parse_eq_ok_iff source parsed).1 h
  refine ⟨rfl, ⟨derived, hderived⟩, ?_⟩
  intro file hfile
  have hresult := (Grammar.parse_eq_ok_iff source _).2 ⟨hfailures, file, hfile, rfl⟩
  obtain rfl := Except.ok.inj (h.symm.trans hresult)
  have hrules : g.rules = file.places.map Place.rule := file.rules_eq_map
  refine ⟨hrules, ?_, Grammar.droppedIn?_events_parse h hfile⟩
  intro p hp text hlast
  have hshaped := allShaped_element (allShaped_of_tokens hfile) hp (List.mem_of_getLast? hlast)
  obtain ⟨code, hcode⟩ : ∃ code, text.toList = '{' :: code ++ ['}'] :=
    hshaped (.code text) List.mem_cons_self
  have hmem : Entry.ofRule p.rule ∈ entries g := by
    apply List.mem_append_left
    rw [hrules]
    exact List.mem_map_of_mem (List.mem_map_of_mem hp)
  have hbody : (Entry.ofRule p.rule).code.toList = Action.body ('{' :: code ++ ['}']) := by
    have hrule : (Entry.ofRule p.rule).code = codeOf p.alt := rfl
    rw [hrule, codeOf, hlast, ← hcode]
    exact String.toList_ofList
  refine ⟨code, _, hcode, hmem, toList_handlerBlock o _, ?_⟩
  rw [hbody]
  exact Action.kept_body o.tabSize code

/-- An action on several lines, with code on the line of the opening brace, and an action that is
not the last item. -/
theorem handlers_keep_actions_mixed :
    let source := "%%\nx : \x7b mid \x7d a \x7b one;\r\n\n    two;\r\n  three \x7d | b ;\n%%\n"
    let o : Options := { tabSize := 2 }
    let code := " one;\r\n\n    two;\r\n  three ".toList
    let e : Entry := ⟨"p_x_1", "x : a", String.ofList (Action.body ('{' :: code ++ ['}']))⟩
    (∃ parsed, (Grammar.parse source).result = .ok parsed ∧
      e ∈ entries (parsed.grammar.request o.families)) ∧
    (∃ rows, (handlerBlock o e).toList =
        (handlerHead o e).toList ++ rows.flatMap (· ++ ['\n']) ++ (handlerEnd o).toList ∧
      Action.Kept o.tabSize code rows) ∧
    (Grammar.parse source).events.filterMap Event.droppedIn? = ["x_1"] := by
  intro source o code e
  let first : List Element := [.action "\x7b mid \x7d", .reference (.plain "a"),
    .action "\x7b one;\r\n\n    two;\r\n  three \x7d"]
  let second : List Element := [.reference (.plain "b")]
  let file : File :=
    { header := some ⟨[], none⟩
      clauses := [⟨"x", first, [second]⟩]
      tail := some "\n"
      starts_with_rule := by simp }
  have hfailures : failuresOf (delivered source) = [] := by decide +kernel
  have hfile : file.tokens = tokensOf (delivered source) := by decide +kernel
  have hparsed := (Grammar.parse_eq_ok_iff source _).2 ⟨hfailures, file, hfile, rfl⟩
  obtain ⟨-, -, hkeep⟩ := handlers_keep_actions hparsed o
  obtain ⟨-, hactions, hwarnings⟩ := hkeep file hfile
  obtain ⟨code', rows, hcode, hmem, hblock, hkept⟩ :=
    hactions ⟨⟨"x", first, [second]⟩, 0, first⟩ List.mem_cons_self _ rfl
  obtain rfl : code' = code := by
    have heq := (List.cons.inj hcode).2
    exact (List.append_cancel_right heq).symm
  have hentry : Entry.ofRule (Place.mk ⟨"x", first, [second]⟩ 0 first).rule = e := by decide +kernel
  rw [hentry] at hmem hblock
  exact ⟨⟨_, hparsed, hmem⟩, ⟨rows, hblock, hkept⟩, hwarnings.trans (by decide +kernel)⟩

end ParserGenerator
