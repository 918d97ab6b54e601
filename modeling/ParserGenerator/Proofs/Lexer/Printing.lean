import ParserGenerator.Proofs.Lexer.Lookahead

/-!
# Reading printed tokens

Tokens that are printed one to a line are read back as they were: every token is cut off at the line
feed after it, and nothing else is found between them. The tokens are any that have a text of their
own; an action block has to be closed by its last brace, and then no text on the next line can open
it again.
-/

namespace ParserGenerator.Lexer

open Text

/-- The token is all of a text that is read: a divider takes nothing with it, and an action block is
closed by its last brace and not before. -/
def WellFormed : Token → Prop
  | .divider tail => tail = none
  | .code text => ∃ body, text.toList = '{' :: body ∧ closeBlock 0 body = some (body, [])
  | t => Shaped t

/-- A separator starts neither a name nor a number. -/
theorem starts_of_isSeparator {c : Char} (h : isSeparator c = true) :
    isNameStart c = false ∧ c.isDigit = false := by
  simp only [isSeparator, Bool.or_eq_true, beq_iff_eq] at h
  rcases h with (((rfl | rfl) | rfl) | rfl) | rfl <;> decide

/-- What starts a name or a number is no separator. -/
theorem not_isSeparator_of_starts {c : Char} (h : isNameStart c = true ∨ c.isDigit = true) :
    isSeparator c = false := by
  rw [← Bool.not_eq_true]
  intro hsep
  obtain ⟨hname, hdigit⟩ := starts_of_isSeparator hsep
  rcases h with hstart | hstart
  · exact absurd hstart (by simp [hname])
  · exact absurd hstart (by simp [hdigit])

/-- A class of characters without the line feed stops where a line ends. -/
theorem EndsLine.stops {p : Char → Bool} {v : List Char} (h : EndsLine v) (hfeed : p '\n' = false) :
    ∀ c ∈ v.head?, p c = false := by
  intro c hc
  rw [h c hc, hfeed]

theorem isNameStart_of_isDigit {c : Char} (h : c.isDigit = true) : isNameStart c = false := by
  cases hc : isNameStart c with
  | false => rfl
  | true =>
    delta isNameStart Char.isAlpha Char.isUpper Char.isLower at hc
    delta Char.isDigit at h
    simp only [Bool.or_eq_true, Bool.and_eq_true, decide_eq_true_eq, beq_iff_eq, ge_iff_le,
      UInt32.le_iff_toNat_le] at h hc
    rcases hc with (⟨hge, -⟩ | ⟨hge, -⟩) | rfl
    · exact absurd (Nat.le_trans hge h.2) (by decide)
    · exact absurd (Nat.le_trans hge h.2) (by decide)
    · exact absurd h (by decide)

/-- A token is cut off at the end of its line. -/
theorem first_of_wellFormed {t : Token} (h : WellFormed t) {v : List Char} (hv : EndsLine v) :
    ∃ c s, t.text.toList = c :: s ∧ isSeparator c = false ∧
      Segment.first false c (s ++ v) = (.token t, v) := by
  cases t with
  | literal body =>
    refine ⟨'%', '{' :: body.toList ++ ['%', '}'], by simp [Token.text], by decide, ?_⟩
    have hcut := cutAtPair_append (by decide) h v
    simp [Segment.first_percent, Segment.percent, hcut]
  | divider tail =>
    obtain rfl : tail = none := h
    exact ⟨'%', ['%'], rfl, by decide, rfl⟩
  | keyword k =>
    obtain ⟨s, hs⟩ : ∃ s, k.text.toList = '%' :: s := by cases k <;> exact ⟨_, rfl⟩
    refine ⟨'%', s, hs, by decide, ?_⟩
    rw [Segment.first_percent, Segment.percent_keyword hs]
  | code text =>
    obtain ⟨body, htext, hclose⟩ := h
    refine ⟨'{', body, htext, by decide, ?_⟩
    have hbroken : BreaksOff ['}'] ('}' :: v) := .last (by decide) [] hv
    rw [Segment.first_brace, Segment.brace, closeBlock_append hclose hbroken]
    simp [← htext]
  | identifier name =>
    obtain ⟨c, s, hname, hc, hs⟩ := h
    obtain ⟨htake, hdrop⟩ := span_append (List.all_eq_true.1 hs) (hv.stops (by decide))
    have hblank := not_isSeparator_of_starts (.inl hc)
    refine ⟨c, s, hname, hblank, ?_⟩
    simp [Segment.first, hblank, hc, htake, hdrop, ← hname]
  | quoted text =>
    obtain ⟨mark, body, hmark, htext, hbody⟩ := h
    refine ⟨mark, body ++ [mark], htext, ?_, ?_⟩
    · obtain rfl | rfl := hmark <;> decide
    · rw [Segment.first_quote hmark, List.append_assoc, List.singleton_append,
        Segment.quotation_closed hbody, ← htext]
      simp
  | number digits =>
    obtain ⟨hne, hdigits⟩ := h
    obtain ⟨c, s, hcs⟩ := List.exists_cons_of_ne_nil hne
    rw [hcs, List.all_cons, Bool.and_eq_true] at hdigits
    obtain ⟨htake, hdrop⟩ := span_append (List.all_eq_true.1 hdigits.2) (hv.stops (by decide))
    have hblank := not_isSeparator_of_starts (.inr hdigits.1)
    refine ⟨c, s, hcs, hblank, ?_⟩
    simp [Segment.first, hblank, isNameStart_of_isDigit hdigits.1, hdigits.1, htake, hdrop, ← hcs]
  | punctuation p =>
    refine ⟨p.char, [], by simp [Token.text], ?_, Segment.first_punctuation false p v⟩
    cases p <;> decide

/-! ## Lines of tokens -/

/-- The lexemes of tokens that are printed one to a line. -/
def printedAt (pos : Position) : List Token → List Lexeme
  | [] => []
  | t :: ts => ⟨t, pos⟩ :: printedAt ((pos.advance t.text.toList).step '\n') ts

theorem map_token_printedAt (pos : Position) (ts : List Token) :
    (printedAt pos ts).map Lexeme.token = ts := by
  induction ts generalizing pos with
  | nil => rfl
  | cons t ts ih => simp [printedAt, ih]

/-- The text of tokens, each on a line of its own after the one that is open. -/
def laterLines (ts : List Token) : List Char := ts.flatMap fun t ↦ '\n' :: t.text.toList

theorem endsLine_laterLines (ts : List Token) : EndsLine (laterLines ts) := by
  cases ts with
  | nil => simp [EndsLine, laterLines]
  | cons t ts => simp [EndsLine, laterLines]

theorem length_le_laterLines (ts : List Token) : ts.length ≤ (laterLines ts).length := by
  induction ts with
  | nil => simp
  | cons t ts ih =>
    simp only [laterLines, List.flatMap_cons, List.length_append, List.length_cons] at ih ⊢
    omega

/-- A token that ends its line is pulled whole. -/
theorem pulls_of_wellFormed {t : Token} (h : WellFormed t) {v : List Char} (hv : EndsLine v)
    (n : Nat) (seen : List Item) (pos : Position) :
    pulls neverClosing (n + 1) seen ⟨t.text.toList ++ v, pos⟩ =
      ⟨[], some (.lexeme ⟨t, pos⟩), ⟨v, pos.advance t.text.toList⟩⟩ ::
        pulls neverClosing n (seen ++ [.lexeme ⟨t, pos⟩]) ⟨v, pos.advance t.text.toList⟩ := by
  obtain ⟨c, s, htext, -, hfirst⟩ := first_of_wellFormed h hv
  have hpull : (Cursor.mk (t.text.toList ++ v) pos).pull (neverClosing seen) =
      ⟨[], some (.lexeme ⟨t, pos⟩), ⟨v, pos.advance t.text.toList⟩⟩ := by
    rw [htext]
    have htoken := pullFrom_token pos hfirst
    rwa [htext] at htoken
  have hitem := congrArg Pull.item? hpull
  rw [pulls_of_item?_eq_some hitem, hpull]

/-- A line feed in front of a token is passed over. -/
theorem pullFrom_feed {closing : Bool} {c : Char} (hc : isSeparator c = false) (rest : List Char)
    (pos : Position) :
    pullFrom closing ('\n' :: c :: rest) pos = pullFrom closing (c :: rest) (pos.step '\n') := by
  have hfirst : Segment.first closing '\n' (c :: rest) = (.blank ['\n'], c :: rest) := by
    have hfeed : isSeparator '\n' = true := by decide
    simp [Segment.first, hfeed, hc]
  rw [pullFrom_skip pos hfirst rfl]
  simp [Segment.faults, Segment.text]

theorem pulls_feed_of_wellFormed {t : Token} (h : WellFormed t) {v : List Char} (hv : EndsLine v)
    (n : Nat) (seen : List Item) (pos : Position) :
    pulls neverClosing n seen ⟨'\n' :: (t.text.toList ++ v), pos⟩ =
      pulls neverClosing n seen ⟨t.text.toList ++ v, pos.step '\n'⟩ := by
  obtain ⟨c, s, htext, hblank, -⟩ := first_of_wellFormed h hv
  have hpull := @pullFrom_feed false c hblank (s ++ v) pos
  cases n with
  | zero => rfl
  | succ n => simp only [pulls, Cursor.pull, neverClosing, htext, List.cons_append, hpull]

/-- What is read of printed tokens: the token on the line that is open, then one on each line. -/
theorem pulls_printed {t : Token} {ts : List Token} (h : ∀ u ∈ t :: ts, WellFormed u) {n : Nat}
    (hn : ts.length < n) (seen : List Item) (pos : Position) :
    itemsOf (pulls neverClosing n seen ⟨t.text.toList ++ laterLines ts, pos⟩) =
        (printedAt pos (t :: ts)).map .lexeme ∧
      faultsOf (pulls neverClosing n seen ⟨t.text.toList ++ laterLines ts, pos⟩) = [] := by
  -- The induction is on the later lines: each pull takes the token of the open line, and the line
  -- feed after it belongs to the next pull.
  induction ts generalizing t n seen pos with
  | nil =>
    obtain ⟨n, rfl⟩ := Nat.exists_eq_add_one_of_ne_zero (Nat.ne_of_gt hn)
    rw [pulls_of_wellFormed (h t List.mem_cons_self) (endsLine_laterLines [])]
    have hend : (Cursor.mk (laterLines []) (pos.advance t.text.toList)).rest = [] := rfl
    obtain ⟨hitems, hfaults⟩ :=
      pulls_of_rest_eq_nil hend neverClosing n (seen ++ [.lexeme ⟨t, pos⟩])
    constructor
    · exact congrArg (Item.lexeme ⟨t, pos⟩ :: ·) hitems
    · exact hfaults
  | cons u ts ih =>
    obtain ⟨n, rfl⟩ := Nat.exists_eq_add_one_of_ne_zero (Nat.ne_of_gt (Nat.zero_lt_of_lt hn))
    have hlater : ts.length < n := by simpa using hn
    rw [pulls_of_wellFormed (h t List.mem_cons_self) (endsLine_laterLines (u :: ts))]
    have hlines : laterLines (u :: ts) = '\n' :: (u.text.toList ++ laterLines ts) := by
      simp [laterLines]
    rw [hlines, pulls_feed_of_wellFormed (h u (by simp)) (endsLine_laterLines ts)]
    obtain ⟨hitems, hfaults⟩ := ih (fun w hw ↦ h w (List.mem_cons_of_mem _ hw)) hlater
      (seen ++ [.lexeme ⟨t, pos⟩]) ((pos.advance t.text.toList).step '\n')
    constructor
    · exact congrArg (Item.lexeme ⟨t, pos⟩ :: ·) hitems
    · exact hfaults

/-- Reading undoes printing: of tokens that are printed one to a line, all are read back, each at
the start of its line, and nothing else is found. -/
theorem read_printed {ts : List Token} (h : ∀ t ∈ ts, WellFormed t) :
    itemsOf (read neverClosing none (joinWith "\n" (ts.map Token.text))) =
        (printedAt .start ts).map .lexeme ∧
      (printedAt .start ts).map Lexeme.token = ts ∧
      faultsOf (read neverClosing none (joinWith "\n" (ts.map Token.text))) = [] := by
  have hprinted : itemsOf (read neverClosing none (joinWith "\n" (ts.map Token.text))) =
        (printedAt .start ts).map .lexeme ∧
      faultsOf (read neverClosing none (joinWith "\n" (ts.map Token.text))) = [] := by
    cases ts with
    | nil => exact pulls_of_rest_eq_nil rfl neverClosing 1 []
    | cons t ts =>
      have htext : (joinWith "\n" ((t :: ts).map Token.text)).toList =
          t.text.toList ++ laterLines ts := by
        rw [List.map_cons, toList_joinWith_cons, List.flatMap_map]
        rfl
      have hlen : ts.length < (joinWith "\n" ((t :: ts).map Token.text)).length + 1 := by
        rw [← String.length_toList, htext, List.length_append]
        have hlines := length_le_laterLines ts
        omega
      rw [read, Option.getD_none, Cursor.ofString, htext]
      exact pulls_printed h hlen [] .start
  exact ⟨hprinted.1, map_token_printedAt .start ts, hprinted.2⟩

/-- The apostrophe in the code of this block would open a character literal if the quote on the next
line were in reach, and the braces in its string, its character and its comment do not count. -/
theorem read_printed_apostrophe :
    let block : Token := .code "\x7b \"\x7d\" '\x7d' // \x7d\n it's \x7d"
    let ts : List Token := [.divider none, .literal "50%", block, .quoted "'\"'", .number "7"]
    WellFormed block ∧
      joinWith "\n" (ts.map Token.text) =
        "%%\n%\x7b50%%\x7d\n\x7b \"\x7d\" '\x7d' // \x7d\n it's \x7d\n'\"'\n7" ∧
      itemsOf (read neverClosing none (joinWith "\n" (ts.map Token.text))) =
        (printedAt .start ts).map .lexeme := by
  intro block ts
  have hblock : WellFormed block :=
    ⟨" \"\x7d\" '\x7d' // \x7d\n it's \x7d".toList, by decide +kernel, by decide +kernel⟩
  have hliteral : WellFormed (.literal "50%") := by
    show ¬ ['%', '}'] <:+: "50%".toList
    decide +kernel
  have hquoted : WellFormed (.quoted "'\"'") := ⟨'\'', ['"'], .inl rfl, rfl, by simp⟩
  have hnumber : WellFormed (.number "7") := ⟨by decide, by decide⟩
  have hall : ∀ t ∈ ts, WellFormed t := by
    simp only [ts, List.forall_mem_cons]
    exact ⟨rfl, hliteral, hblock, hquoted, hnumber, nofun⟩
  exact ⟨hblock, by decide +kernel, (read_printed hall).1⟩

end ParserGenerator.Lexer
