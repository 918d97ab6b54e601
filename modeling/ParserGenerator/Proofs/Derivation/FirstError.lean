import ParserGenerator.Proofs.Derivation.Completion

/-!
# The first impossible token

The reader takes lexemes as long as some file begins with them. It stops at the end of the items, at
a failure of the lexer, or at a lexeme that it cannot take, and it never looks past the item at which
it stops. So an unexpected lexeme is the first one with which no file goes on, the end of the input is
unexpected only where some file goes on, and a failure is reported exactly if nothing impossible
stands in front of it.
-/

namespace ParserGenerator.Grammar

open ParserGenerator.Derivation Lexer State Text

/-- The place of the last lexeme, or the start of the text. -/
def lastPosition (lexemes : List Lexeme) : Position :=
  match lexemes.getLast? with
  | some lx => lx.pos
  | none => .start

@[simp] theorem lastPosition_append_singleton (lexemes : List Lexeme) (lx : Lexeme) :
    lastPosition (lexemes ++ [lx]) = lx.pos := by
  simp [lastPosition]

/-- The reader is in the state after the given lexemes, which can be printed unless the file has
ended. -/
structure Taken (s : State) (lexemes : List Lexeme) : Prop extends Reached s lexemes where
  wellFormed : s.control ≠ .finished → ∀ lx ∈ lexemes, WellFormed lx.token

/-- Why the reader stops in a state, given the items that are left, and what it answers. -/
inductive Stops (s : State) (last : Position) : List Item → Except SyntaxError Parsed → Prop
  | finished (parsed : Parsed) (h : s.control = .finished) : Stops s last [] (.ok parsed)
  | endOfInput (h : s.control ≠ .finished) :
    Stops s last [] (.error (.endOfInput s.control.expects last))
  | failure (e : Failure) (later : List Item) (h : s.control ≠ .finished) :
    Stops s last (.failure e :: later) (.error (.lexical e))
  | unexpected (found : Lexeme) (later : List Item) (h : s.control ≠ .finished)
    (hstep : s.core.stepToken found.token = none) :
    Stops s last (.lexeme found :: later) (.error (.unexpected found s.control.expects))

/-- A lexeme that does not end the file can be printed. -/
theorem wellFormed_of_pull {s next : State} {cur : Cursor} {lx : Lexeme}
    (hitem : (cur.pull s.control.closing).item? = some (.lexeme lx))
    (hstep : (afterPull s (cur.pull s.control.closing)).step lx = some next)
    (hnext : next.control ≠ .finished) : WellFormed lx.token := by
  obtain ⟨gap, c, rest, -, -, hfirst, -⟩ := exists_gap hitem
  apply Segment.wellFormed_of_first hfirst
  intro hdivider
  obtain ⟨t, pos⟩ := lx
  obtain ⟨tail, rfl⟩ := exists_eq_divider hdivider
  rw [← Bool.not_eq_true]
  intro hclosing
  exact hnext (finished_of_divider (s := afterPull s _) hclosing hstep)

theorem Taken.step {s next : State} {cur : Cursor} {lexemes : List Lexeme} {lx : Lexeme}
    (h : Taken s lexemes) (hs : s.control ≠ .finished)
    (hitem : (cur.pull s.control.closing).item? = some (.lexeme lx))
    (hstep : (afterPull s (cur.pull s.control.closing)).step lx = some next) :
    Taken next (lexemes ++ [lx]) := by
  refine ⟨(h.afterPull _).step hstep, ?_⟩
  intro hnext lx' hlx'
  rcases List.mem_append.1 hlx' with hbefore | hlast
  · exact h.wellFormed hs lx' hbefore
  · obtain rfl := List.mem_singleton.1 hlast
    exact wellFormed_of_pull hitem hstep hnext

/-- After some lexemes, the reader takes further ones from the items and then stops. -/
def StopsAfter (before : List Lexeme) (items : List Item) (result : Except SyntaxError Parsed) :
    Prop :=
  ∃ (last : State) (lexemes : List Lexeme) (rest : List Item), Taken last (before ++ lexemes) ∧
    items = lexemes.map .lexeme ++ rest ∧ Stops last (lastPosition (before ++ lexemes)) rest result

section StopsAfter

variable {s : State} {before : List Lexeme} {items : List Item}
  {result : Except SyntaxError Parsed}

theorem StopsAfter.of_stops (h : Taken s before)
    (hstops : Stops s (lastPosition before) items result) : StopsAfter before items result :=
  ⟨s, [], items, by simpa using h, rfl, by simpa using hstops⟩

theorem StopsAfter.cons {lx : Lexeme} (h : StopsAfter (before ++ [lx]) items result) :
    StopsAfter before (.lexeme lx :: items) result := by
  obtain ⟨last, lexemes, rest, htaken, rfl, hstops⟩ := h
  exact ⟨last, lx :: lexemes, rest, by simpa using htaken, rfl, by simpa using hstops⟩

end StopsAfter

/-- The reader goes on from item to item until it stops. -/
theorem stopsAfter_readFrom {n : Nat} {s : State} {cur : Cursor} {before : List Lexeme}
    (hn : cur.rest.length < n) (h : Taken s before) (hend : s.control = .finished → cur.rest = [])
    (faults : List Fault) :
    StopsAfter before (itemsOf (pulls ruleSchedule n (before.map .lexeme) cur))
      (readFrom cur s (lastPosition before) faults).result := by
  induction n generalizing s cur before faults with
  | zero => omega
  | succ n ih =>
    have hclosing : s.control.closing = ruleSchedule (before.map .lexeme) := h.inStep.closing
    have hopen {item : Item} (hitem : (cur.pull s.control.closing).item? = some item) :
        s.control ≠ .finished := by
      intro hs
      have hshorter := length_pull hitem
      rw [hend hs] at hshorter
      cases hshorter
    rcases hitem : (cur.pull s.control.closing).item? with _ | lx | e
    · have hitems : itemsOf (pulls ruleSchedule (n + 1) (before.map .lexeme) cur) = [] := by
        rw [pulls_of_item?_eq_none (hclosing ▸ hitem)]
        simp [itemsOf, ← hclosing, hitem]
      rw [hitems, result_readFrom_of_none _ faults hitem]
      apply StopsAfter.of_stops h
      split
      · next hs => exact .finished _ hs
      · next hs => exact .endOfInput hs
    · rw [result_readFrom_of_lexeme _ faults hitem, itemsOf_pulls_succ (hclosing ▸ hitem)]
      cases hstep : (afterPull s (cur.pull s.control.closing)).step lx with
      | none =>
        have htoken : s.core.stepToken lx.token = none := by
          have hcore := core_step (afterPull s (cur.pull s.control.closing)) lx
          rw [hstep] at hcore
          exact hcore.symm
        exact .of_stops h (.unexpected lx _ (hopen hitem) htoken)
      | some next =>
        have hnext := h.step (hopen hitem) hitem hstep
        have hrest (hfinished : next.control = .finished) :
            (cur.pull s.control.closing).cursor.rest = [] :=
          (h.afterPull _).rest_eq_nil hitem hstep hfinished
        have hlen := length_pull hitem
        have hlater := ih (by omega) hnext hrest (faults ++ (cur.pull s.control.closing).faults)
        rw [List.map_append, lastPosition_append_singleton] at hlater
        rw [← hclosing]
        exact hlater.cons
    · rw [result_readFrom_of_failure _ faults hitem, itemsOf_pulls_succ (hclosing ▸ hitem)]
      exact .of_stops h (.failure e _ (hopen hitem))

theorem exists_stops (source : String) :
    ∃ (last : State) (lexemes : List Lexeme) (rest : List Item), Taken last lexemes ∧
      itemsOf (delivered source) = lexemes.map .lexeme ++ rest ∧
      Stops last (lastPosition lexemes) rest (parse source).result := by
  have hlen : (Cursor.ofString source).rest.length < source.length + 1 := by
    rw [← String.length_toList]
    exact Nat.lt_succ_self _
  have hnothing : Taken {} [] := ⟨reached_nil, by simp⟩
  exact stopsAfter_readFrom hlen hnothing (by simp) []

/-! ## Where the reader stops -/

section Stopped

variable {s : State} {lexemes : List Lexeme} {rest : List Item}

theorem Taken.viable (h : Taken s lexemes) (hs : s.control ≠ .finished) :
    Viable (lexemes.map Lexeme.token) := by
  obtain ⟨more, -, haccepted⟩ := h.exists_accepted hs (h.wellFormed hs)
  exact ⟨more, haccepted⟩

/-- No file goes on with a token that the reader cannot take. -/
theorem Taken.not_viable (h : Taken s lexemes) {t : Token} (ht : s.core.stepToken t = none) :
    ¬ Viable (lexemes.map Lexeme.token ++ [t]) := by
  intro hviable
  obtain ⟨next, hrun⟩ := hviable.exists_run
  rw [run_append, h.run, Option.bind_some, run_cons, ht] at hrun
  cases hrun

/-- Lexemes at the start of the items stand in front of the first failure. -/
theorem exists_append_of_failure {a b : List Lexeme} {e : Failure} {later : List Item}
    (h : a.map .lexeme ++ rest = b.map .lexeme ++ .failure e :: later) :
    ∃ c, b = a ++ c ∧ rest = c.map .lexeme ++ .failure e :: later := by
  induction a generalizing b with
  | nil => exact ⟨b, rfl, h⟩
  | cons lx a ih =>
    cases b with
    | nil => cases h
    | cons lx' b =>
      obtain ⟨hhead, htail⟩ := List.cons.inj h
      obtain rfl := Item.lexeme.inj hhead
      obtain ⟨c, rfl, hrest⟩ := ih htail
      exact ⟨c, rfl, hrest⟩

/-- A failure that some file begins in front of is where the reader stops. -/
theorem Stops.eq_lexical {last : Position} {result : Except SyntaxError Parsed}
    (h : Stops s last rest result) (htaken : Taken s lexemes) {before : List Lexeme} {e : Failure}
    {later : List Item}
    (hitems : lexemes.map .lexeme ++ rest = before.map .lexeme ++ .failure e :: later)
    (hviable : Viable (before.map Lexeme.token)) : result = .error (.lexical e) := by
  obtain ⟨more, rfl, hrest⟩ := exists_append_of_failure hitems
  cases h with
  | finished parsed hs => simp at hrest
  | endOfInput hs => simp at hrest
  | failure e' later' hs =>
    cases more with
    | nil =>
      obtain rfl := Item.failure.inj (List.cons.inj hrest).1
      rfl
    | cons lx more => cases hrest
  | unexpected found later' hs hstep =>
    cases more with
    | nil => cases hrest
    | cons lx more =>
      obtain rfl := Item.lexeme.inj (List.cons.inj hrest).1
      rw [List.map_append, List.map_cons, List.append_cons] at hviable
      exact absurd hviable.of_append (htaken.not_viable hstep)

end Stopped

/-- An unexpected lexeme is the first impossible one: some accepted source begins with the tokens in
front of it, and none goes on with it. Where the end of the input is unexpected, some accepted source
goes on, and the place is that of the last lexeme. A failure is reported if some accepted source
begins with the tokens in front of it, and only then. -/
theorem parse_stops_at_first_error (source : String) :
    (∀ found expected, (parse source).result = .error (.unexpected found expected) →
      ∃ (before : List Lexeme) (later : List Item),
        itemsOf (delivered source) = before.map .lexeme ++ .lexeme found :: later ∧
        Viable (before.map Lexeme.token) ∧
        ¬ Viable (before.map Lexeme.token ++ [found.token])) ∧
    (∀ expected last, (parse source).result = .error (.endOfInput expected last) →
      ∃ lexemes : List Lexeme, itemsOf (delivered source) = lexemes.map .lexeme ∧
        (∃ more ≠ [], Accepted (lexemes.map Lexeme.token ++ more)) ∧
        last = lastPosition lexemes) ∧
    (∀ (before : List Lexeme) (e : Failure) (later : List Item),
      itemsOf (delivered source) = before.map .lexeme ++ .failure e :: later →
      Viable (before.map Lexeme.token) → (parse source).result = .error (.lexical e)) ∧
    (∀ e, (parse source).result = .error (.lexical e) →
      ∃ (before : List Lexeme) (later : List Item),
        itemsOf (delivered source) = before.map .lexeme ++ .failure e :: later ∧
        Viable (before.map Lexeme.token)) ∧
    ∀ (before : List Lexeme) (later : List Item),
      itemsOf (delivered source) = before.map .lexeme ++ later →
      ¬ Viable (before.map Lexeme.token) → ∀ e, (parse source).result ≠ .error (.lexical e) := by
  obtain ⟨s, lexemes, rest, htaken, hitems, hstops⟩ := exists_stops source
  have hlexical (e : Failure) (h : (parse source).result = .error (.lexical e)) :
      ∃ (before : List Lexeme) (later : List Item),
        itemsOf (delivered source) = before.map .lexeme ++ .failure e :: later ∧
        Viable (before.map Lexeme.token) := by
    rw [h] at hstops
    cases hstops with
    | failure _ later hs => exact ⟨lexemes, later, hitems, htaken.viable hs⟩
  refine ⟨?_, ?_, ?_, hlexical, ?_⟩
  · intro found expected h
    rw [h] at hstops
    cases hstops with
    | unexpected _ later hs hstep =>
      exact ⟨lexemes, later, hitems, htaken.viable hs, htaken.not_viable hstep⟩
  · intro expected last h
    rw [h] at hstops
    cases hstops with
    | endOfInput hs =>
      rw [List.append_nil] at hitems
      exact ⟨lexemes, hitems, htaken.exists_accepted hs (htaken.wellFormed hs), rfl⟩
  · intro before e later hbefore hviable
    exact hstops.eq_lexical htaken (hitems.symm.trans hbefore) hviable
  · intro before later hbefore hnot e h
    obtain ⟨before', later', hitems', hviable⟩ := hlexical e h
    obtain ⟨more, rfl, -⟩ := exists_append_of_failure (hbefore.symm.trans hitems')
    rw [List.map_append] at hviable
    exact hnot hviable.of_append

/-- The error of a report, if it has one. -/
def Report.error? (r : Report) : Option SyntaxError :=
  match r.result with
  | .ok _ => none
  | .error e => some e

theorem result_of_error? {r : Report} {e : SyntaxError} (h : r.error? = some e) :
    r.result = .error e := by
  unfold Report.error? at h
  split at h
  · cases h
  · next hresult => rw [hresult, Option.some.inj h]

/-- A bracket that nothing opens stands in front of an open brace, a shorthand is not closed, and a
brace is not closed. -/
theorem parse_stops_at_first_error_bracket :
    let stray := "%%\nx : a | ] \x7b"
    let unclosed := "%%\nx : [a"
    let brace := "%%\nx : a \x7b"
    let found : Lexeme := ⟨.punctuation .closeBracket, ⟨11, 2, 9⟩⟩
    let failure : Failure := ⟨.unbalancedCode, ⟨9, 2, 7⟩⟩
    (parse stray).result = .error (.unexpected found .part) ∧
      (∃ (before : List Lexeme) (later : List Item),
        itemsOf (delivered stray) = before.map .lexeme ++ .lexeme found :: later ∧
        Viable (before.map Lexeme.token) ∧
        ¬ Viable (before.map Lexeme.token ++ [found.token])) ∧
    (parse unclosed).result = .error (.endOfInput (.closing .optional) ⟨8, 2, 6⟩) ∧
      (∃ lexemes : List Lexeme, itemsOf (delivered unclosed) = lexemes.map .lexeme ∧
        (∃ more ≠ [], Accepted (lexemes.map Lexeme.token ++ more)) ∧
        ⟨8, 2, 6⟩ = lastPosition lexemes) ∧
    (parse brace).result = .error (.lexical failure) ∧
      ∃ (before : List Lexeme) (later : List Item),
        itemsOf (delivered brace) = before.map .lexeme ++ .failure failure :: later ∧
        Viable (before.map Lexeme.token) := by
  intro stray unclosed brace found failure
  have hstray : (parse stray).result = .error (.unexpected found .part) :=
    result_of_error? (by decide +kernel)
  have hunclosed : (parse unclosed).result = .error (.endOfInput (.closing .optional) ⟨8, 2, 6⟩) :=
    result_of_error? (by decide +kernel)
  have hbrace : (parse brace).result = .error (.lexical failure) :=
    result_of_error? (by decide +kernel)
  exact ⟨hstray, (parse_stops_at_first_error stray).1 _ _ hstray, hunclosed,
    (parse_stops_at_first_error unclosed).2.1 _ _ hunclosed, hbrace,
    (parse_stops_at_first_error brace).2.2.2.1 _ hbrace⟩

end ParserGenerator.Grammar
