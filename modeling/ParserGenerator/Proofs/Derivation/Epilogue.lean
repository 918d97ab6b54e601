import ParserGenerator.Proofs.Derivation.Language
import ParserGenerator.Proofs.Lexer.Lookahead

/-!
# The epilogue

The divider that closes the rule section takes the rest of the file with it. Nothing in front of it
depends on that rest: no token has looked across the divider, so another rest that starts on a new
line leaves every token, every fault and the whole grammar as they are, except for the epilogue. And
since nothing is left after that divider, the reader never finds a lexeme where it needs the end of
the input.
-/

namespace ParserGenerator

namespace Lexer

open Text

/-! ## The divider that takes the rest -/

/-- Two texts that start with a divider, after which the second one ends its line. -/
theorem breaksOff_divider (u : List Char) {v : List Char} (hv : EndsLine v) :
    BreaksOff ('%' :: '%' :: u) ('%' :: '%' :: v) := .cons '%' (.last (by decide) u hv)

theorem Segment.first_divider (closing : Bool) (rest : List Char) :
    first closing '%' ('%' :: rest) =
      if closing then (.token (.divider (some (String.ofList rest))), [])
      else (.token (.divider none), rest) := rfl

theorem toList_text_divider (tail : Option String) :
    (Token.divider tail).text.toList = '%' :: '%' :: (tail.getD "").toList := by
  cases tail <;> simp [Token.text]

/-- A divider that closes the last section takes the rest with it. -/
theorem Segment.rest_of_first_divider {c : Char} {rest after : List Char} {tail : Option String}
    (h : first true c rest = (.token (.divider tail), after)) :
    ∃ body, c :: rest = '%' :: '%' :: body ∧ tail = some (String.ofList body) ∧ after = [] := by
  have happ := text_append_first true c rest
  simp only [h, text, toList_text_divider, List.cons_append] at happ
  obtain ⟨rfl, rfl⟩ := List.cons.inj happ
  rw [first_divider] at h
  obtain ⟨htail, hafter⟩ := Prod.mk.inj h
  refine ⟨(tail.getD "").toList ++ after, rfl, ?_, hafter.symm⟩
  exact Token.divider.inj (Segment.token.inj htail.symm)

section Pull

variable {closing : Bool} {cur : Cursor}

/-- What is pulled together with the closing divider does not depend on the text after it. -/
theorem pull_closing {tail : Option String} {pos : Position}
    (h : (cur.pull true).item? = some (.lexeme ⟨.divider tail, pos⟩)) :
    ∃ gap rest, tail = some rest ∧ cur.rest = gap ++ '%' :: '%' :: rest.toList ∧
      pos = cur.pos.advance gap ∧ (cur.pull true).cursor.rest = [] ∧
      ∀ r : String, EndsLine r.toList →
        (Cursor.mk (gap ++ '%' :: '%' :: r.toList) cur.pos).pull true =
          ⟨(cur.pull true).faults, some (.lexeme ⟨.divider (some r), pos⟩),
            ⟨[], pos.advance ('%' :: '%' :: r.toList)⟩⟩ := by
  obtain ⟨gap, c, rest, hcur, hpos, hfirst, -, hgap⟩ := exists_gap h
  obtain ⟨body, hbody, rfl, hafter⟩ := Segment.rest_of_first_divider hfirst
  rw [hbody] at hcur hgap
  refine ⟨gap, String.ofList body, rfl, by simpa using hcur, hpos, hafter, ?_⟩
  intro r hr
  have htoken := pullFrom_token pos (Segment.first_divider true r.toList)
  rw [Cursor.pull, hgap _ (breaksOff_divider body hr), htoken]
  simp [Cursor.pull, Token.text]

/-- A token that does not take the rest of the text is bounded. -/
theorem bounded_of_pull {lx : Lexeme} (h : (cur.pull closing).item? = some (.lexeme lx))
    (hrest : (cur.pull closing).cursor.rest ≠ []) : (Segment.token lx.token).Bounded := by
  obtain ⟨gap, c, rest, -, -, hfirst, -⟩ := exists_gap h
  have hfits := Segment.fits_first closing c rest
  rw [hfirst] at hfits
  cases ht : lx.token with
  | divider tail =>
    cases tail with
    | none => trivial
    | some tail => exact absurd (hfits.2 tail ht) hrest
  | _ => trivial

/-- A token is pulled in the same way when the text after it is broken off. -/
theorem pull_of_breaksOff {lx : Lexeme} (h : (cur.pull closing).item? = some (.lexeme lx))
    (hbounded : (Segment.token lx.token).Bounded) :
    ∃ front, cur.rest = front ++ (cur.pull closing).cursor.rest ∧
      (cur.pull closing).cursor.pos = cur.pos.advance front ∧
      ∀ v, BreaksOff (cur.pull closing).cursor.rest v →
        (Cursor.mk (front ++ v) cur.pos).pull closing =
          { cur.pull closing with cursor := ⟨v, (cur.pull closing).cursor.pos⟩ } := by
  obtain ⟨gap, c, rest, hcur, hpos, hfirst, hcursor, hgap⟩ := exists_gap h
  have happ := Segment.text_append_first closing c rest
  obtain ⟨s, htext⟩ := Segment.exists_text_first closing c rest
  rw [hfirst, Segment.text] at happ htext
  refine ⟨gap ++ lx.token.text.toList, ?_, ?_, ?_⟩
  · rw [hcur, ← happ, List.append_assoc]
    rfl
  · rw [Position.advance_append, ← hpos]
    exact hcursor
  · intro v hv
    have hbroken : BreaksOff (c :: rest) (lx.token.text.toList ++ v) := happ ▸ hv.append _
    have hcut := Segment.first_append hfirst hbounded htext hv
    rw [Cursor.pull, List.append_assoc, hgap _ hbroken, htext, List.cons_append,
      pullFrom_token lx.pos hcut]
    rw [Cursor.pull] at h
    simp [Cursor.pull, h, hcursor]

end Pull

section Run

variable {schedule : List Item → Bool} {n : Nat} {seen : List Item} {cur : Cursor} {item : Item}

theorem itemsOf_pulls_succ (h : (cur.pull (schedule seen)).item? = some item) (n : Nat) :
    itemsOf (pulls schedule (n + 1) seen cur) =
      item :: itemsOf (pulls schedule n (seen ++ [item]) (cur.pull (schedule seen)).cursor) := by
  rw [pulls_of_item?_eq_some h]
  exact List.filterMap_cons_some h

theorem faultsOf_pulls_succ (h : (cur.pull (schedule seen)).item? = some item) (n : Nat) :
    faultsOf (pulls schedule (n + 1) seen cur) =
      (cur.pull (schedule seen)).faults ++
        faultsOf (pulls schedule n (seen ++ [item]) (cur.pull (schedule seen)).cursor) := by
  rw [pulls_of_item?_eq_some h]
  rfl

theorem exists_pull_of_itemsOf {items : List Item}
    (h : itemsOf (pulls schedule n seen cur) = item :: items) :
    ∃ k, n = k + 1 ∧ (cur.pull (schedule seen)).item? = some item ∧
      itemsOf (pulls schedule k (seen ++ [item]) (cur.pull (schedule seen)).cursor) = items := by
  cases n with
  | zero => cases h
  | succ k =>
    cases hitem : (cur.pull (schedule seen)).item? with
    | none => simp [pulls_of_item?_eq_none hitem, itemsOf, hitem] at h
    | some first =>
      rw [itemsOf_pulls_succ hitem] at h
      obtain ⟨rfl, hitems⟩ := List.cons.inj h
      exact ⟨k, rfl, rfl, hitems⟩

/-- A reading that ends with the closing divider is the same, up to the text of the divider, when
another text follows on a new line. -/
theorem pulls_closing {lexemes : List Lexeme} {tail : Option String} {pos : Position}
    (h : itemsOf (pulls schedule n seen cur) =
      lexemes.map .lexeme ++ [.lexeme ⟨.divider tail, pos⟩])
    (hclosing : schedule (seen ++ lexemes.map .lexeme) = true) :
    ∃ front rest, tail = some rest ∧ cur.rest = front ++ '%' :: '%' :: rest.toList ∧
      pos = cur.pos.advance front ∧ lexemes.length ≤ front.length ∧
      ∀ r : String, EndsLine r.toList → ∀ m, lexemes.length < m →
        itemsOf (pulls schedule m seen ⟨front ++ '%' :: '%' :: r.toList, cur.pos⟩) =
            lexemes.map .lexeme ++ [.lexeme ⟨.divider (some r), pos⟩] ∧
          faultsOf (pulls schedule m seen ⟨front ++ '%' :: '%' :: r.toList, cur.pos⟩) =
            faultsOf (pulls schedule n seen cur) := by
  -- One pull for each lexeme in front of the divider; the induction hypothesis says what the text
  -- after the pull is in the second run, and that this text is broken off.
  induction lexemes generalizing n seen cur with
  | nil =>
    obtain ⟨k, rfl, hitem, -⟩ := exists_pull_of_itemsOf h
    have hflag : schedule seen = true := by simpa using hclosing
    obtain ⟨gap, rest, htail, hcur, hpos, hend, hgap⟩ := pull_closing (hflag ▸ hitem)
    rw [← hflag] at hend hgap
    refine ⟨gap, rest, htail, hcur, hpos, by simp, ?_⟩
    intro r hr m hm
    obtain ⟨m, rfl⟩ := Nat.exists_eq_add_one_of_ne_zero (Nat.ne_of_gt hm)
    have hpull := hgap r hr
    have hdivider := congrArg Pull.item? hpull
    rw [itemsOf_pulls_succ hdivider, faultsOf_pulls_succ hdivider, faultsOf_pulls_succ hitem]
    have hnothing {c : Cursor} (hc : c.rest = []) := pulls_of_rest_eq_nil hc schedule
    simp [hpull, hnothing, hend]
  | cons lx lexemes ih =>
    obtain ⟨k, rfl, hitem, hitems⟩ := exists_pull_of_itemsOf h
    have hlater : schedule ((seen ++ [.lexeme lx]) ++ lexemes.map .lexeme) = true := by
      simpa using hclosing
    obtain ⟨front, rest, htail, hcur, hpos, hlen, hfront⟩ := ih hitems hlater
    have hbounded : (Segment.token lx.token).Bounded := bounded_of_pull hitem (by simp [hcur])
    obtain ⟨text, htext, hcursor, hbreaks⟩ := pull_of_breaksOff hitem hbounded
    refine ⟨text ++ front, rest, htail, ?_, ?_, ?_, ?_⟩
    · rw [htext, hcur, List.append_assoc]
    · rw [hpos, hcursor, Position.advance_append]
    · have hshorter := length_pull hitem
      rw [htext, List.length_append] at hshorter
      simp only [List.length_cons, List.length_append]
      omega
    · intro r hr m hm
      obtain ⟨m, rfl⟩ := Nat.exists_eq_add_one_of_ne_zero (Nat.ne_of_gt (Nat.zero_lt_of_lt hm))
      have hbroken : BreaksOff (cur.pull (schedule seen)).cursor.rest
          (front ++ '%' :: '%' :: r.toList) := by
        rw [hcur]
        exact (breaksOff_divider rest.toList hr).append front
      have hpull := hbreaks _ hbroken
      have hsame := (congrArg Pull.item? hpull).trans hitem
      obtain ⟨hitems', hfaults'⟩ := hfront r hr m (Nat.lt_of_succ_lt_succ hm)
      rw [List.append_assoc, itemsOf_pulls_succ hsame, faultsOf_pulls_succ hsame,
        faultsOf_pulls_succ hitem, hpull, hitems', hfaults']
      exact ⟨rfl, rfl⟩

end Run

/-! ## Readings without failures -/

theorem exists_lexemes {reading : List Pull} (h : failuresOf reading = []) :
    ∃ lexemes : List Lexeme, itemsOf reading = lexemes.map .lexeme := by
  unfold failuresOf at h
  generalize itemsOf reading = items at h
  induction items with
  | nil => exact ⟨[], rfl⟩
  | cons item items ih =>
    cases item with
    | failure e => simp [Item.failure?] at h
    | lexeme lx =>
      obtain ⟨lexemes, rfl⟩ := ih (by simpa [Item.failure?, List.filterMap_cons] using h)
      exact ⟨lx :: lexemes, rfl⟩

theorem tokensOf_of_lexemes {reading : List Pull} {lexemes : List Lexeme}
    (h : itemsOf reading = lexemes.map .lexeme) : tokensOf reading = lexemes.map Lexeme.token := by
  have hsome : Item.token? ∘ Item.lexeme = some ∘ Lexeme.token := rfl
  rw [tokensOf, h, List.filterMap_map, hsome, List.filterMap_eq_map]

theorem failuresOf_of_lexemes {reading : List Pull} {lexemes : List Lexeme}
    (h : itemsOf reading = lexemes.map .lexeme) : failuresOf reading = [] := by
  rw [failuresOf, h, List.filterMap_map, List.filterMap_eq_nil_iff]
  intro lx _
  rfl

/-- The rule section has begun if the tokens so far start with a name or have a divider. -/
theorem ruleSchedule_lexemes (lexemes : List Lexeme) :
    ruleSchedule (lexemes.map .lexeme) =
      ((lexemes.map Lexeme.token).head?.any Grammar.isIdentifier ||
        (lexemes.map Lexeme.token).any Grammar.isDivider) := by
  have hstarts : startsWithName (lexemes.map .lexeme) =
      (lexemes.map Lexeme.token).head?.any Grammar.isIdentifier := by
    cases lexemes with
    | nil => rfl
    | cons lx lexemes =>
      obtain ⟨t, pos⟩ := lx
      cases t <;> rfl
  have hdivider : closingAfterDivider (lexemes.map .lexeme) =
      (lexemes.map Lexeme.token).any Grammar.isDivider := by
    unfold closingAfterDivider
    rw [List.any_map, List.any_map]
    congr 1
    funext lx
    obtain ⟨t, pos⟩ := lx
    cases t <;> rfl
  rw [ruleSchedule, hstarts, hdivider]

end Lexer

namespace Derivation.File

/-- The tokens in front of the divider that closes the rule section. -/
def body (f : File) : List Token :=
  f.header.toList.flatMap Header.tokens ++ f.clauses.flatMap Clause.tokens

theorem tokens_eq_body_append (f : File) : f.tokens = f.body ++ [.divider f.tail] := rfl

/-- In front of its last divider, a file starts with a rule or has another divider. -/
theorem rules_begun (f : File) :
    (f.body.head?.any Grammar.isIdentifier || f.body.any Grammar.isDivider) = true := by
  cases hheader : f.header with
  | some header =>
    have hdivider : f.body.any Grammar.isDivider = true := by
      simp [body, hheader, Header.tokens, Grammar.isDivider]
    rw [hdivider, Bool.or_true]
  | none =>
    obtain ⟨clause, clauses, hclauses⟩ := List.exists_cons_of_ne_nil (f.starts_with_rule hheader)
    have hname : f.body.head?.any Grammar.isIdentifier = true := by
      simp [body, hheader, hclauses, Clause.tokens, Grammar.isIdentifier]
    rw [hname, Bool.true_or]

end Derivation.File

namespace Grammar

open ParserGenerator.Derivation Lexer State Text

/-! ## The rest of the file -/

/-- The source is `front`, the divider that closes the rule section, and `rest`: the last item of
its reading is a divider that stands after `front` and takes `rest`. -/
structure ClosesRules (source front rest : String) : Prop where
  text : source = front ++ "%%" ++ rest
  last : (itemsOf (delivered source)).getLast? =
    some (.lexeme ⟨.divider (some rest), Position.start.advance front.toList⟩)

theorem ClosesRules.unique {source front rest front' rest' : String}
    (h : ClosesRules source front rest) (h' : ClosesRules source front' rest') :
    front = front' ∧ rest = rest' := by
  have hlast := h.last.symm.trans h'.last
  obtain rfl : rest = rest' := by
    simp only [Option.some.injEq, Item.lexeme.injEq, Lexeme.mk.injEq, Token.divider.injEq] at hlast
    exact hlast.1
  have htext := congrArg String.toList (h.text.symm.trans h'.text)
  simp only [String.toList_append, List.append_cancel_right_eq] at htext
  exact ⟨String.toList_injective htext, rfl⟩

/-- The epilogue of a file: what stands after the last divider, if one of its characters is not
blank. -/
def epilogueOf (rest : String) : Option String :=
  if rest.toList.any fun c ↦ !isBlank c then some rest else none

theorem epilogue_eq_epilogueOf {f : File} {rest : String} (h : f.tail = some rest) :
    f.grammar.epilogue = epilogueOf rest := by
  simp [File.grammar, h, epilogueOf, isBlankText, Option.filter]

/-- The items of a file: the lexemes of its body and the divider that closes the rule section. -/
theorem exists_lexemes_of_file {source : String} {file : File}
    (hfailures : failuresOf (delivered source) = [])
    (hfile : file.tokens = tokensOf (delivered source)) :
    ∃ (before : List Lexeme) (pos : Position), before.map Lexeme.token = file.body ∧
      itemsOf (delivered source) = before.map .lexeme ++ [.lexeme ⟨.divider file.tail, pos⟩] := by
  obtain ⟨lexemes, hlexemes⟩ := exists_lexemes hfailures
  rw [tokensOf_of_lexemes hlexemes, file.tokens_eq_body_append] at hfile
  obtain ⟨before, last, rfl, hbefore, hlast⟩ := List.append_eq_map_iff.1 hfile
  obtain ⟨⟨t, pos⟩, rfl, rfl⟩ := List.map_eq_singleton_iff.1 hlast
  refine ⟨before, pos, hbefore, ?_⟩
  rw [hlexemes, List.map_append]
  rfl

theorem delivered_ofList_append (front : List Char) (r : String) :
    delivered (String.ofList front ++ "%%" ++ r) =
      pulls ruleSchedule (front.length + r.length + 3) []
        ⟨front ++ '%' :: '%' :: r.toList, .start⟩ := by
  have hsource : (String.ofList front ++ "%%" ++ r).toList = front ++ '%' :: '%' :: r.toList := by
    simp
  have hlength : (String.ofList front ++ "%%" ++ r).length = front.length + r.length + 2 := by
    rw [← String.length_toList, hsource, ← String.length_toList]
    simp only [List.length_append, List.length_cons]
    omega
  rw [delivered, Lexer.read, Option.getD_none, Cursor.ofString, hsource, hlength]

/-- The last divider of a file takes the rest of it, and another rest on a new line leaves every
other token and all faults as they are. -/
theorem exists_closesRules {source : String} {file : File}
    (hfailures : failuresOf (delivered source) = [])
    (hfile : file.tokens = tokensOf (delivered source)) :
    ∃ front rest, ClosesRules source front rest ∧ file.tail = some rest ∧
      ∀ r : String, EndsLine r.toList →
        failuresOf (delivered (front ++ "%%" ++ r)) = [] ∧
        { file with tail := some r }.tokens = tokensOf (delivered (front ++ "%%" ++ r)) ∧
        faultsOf (delivered (front ++ "%%" ++ r)) = faultsOf (delivered source) := by
  obtain ⟨before, pos, hbefore, hitems⟩ := exists_lexemes_of_file hfailures hfile
  have hclosing : ruleSchedule ([] ++ before.map .lexeme) = true := by
    rw [List.nil_append, ruleSchedule_lexemes, hbefore]
    exact file.rules_begun
  obtain ⟨front, rest, htail, hcur, hpos, hlen, hfront⟩ := pulls_closing hitems hclosing
  refine ⟨String.ofList front, rest, ⟨?_, ?_⟩, htail, ?_⟩
  · apply String.toList_injective
    rw [Cursor.ofString] at hcur
    simpa using hcur
  · rw [hitems, htail, hpos, String.toList_ofList]
    simp [Cursor.ofString]
  · intro r hr
    obtain ⟨hsame, hfaults⟩ := hfront r hr (front.length + r.length + 3) (by omega)
    have hlexemes : itemsOf (delivered (String.ofList front ++ "%%" ++ r)) =
        (before ++ [Lexeme.mk (.divider (some r)) pos]).map .lexeme := by
      rw [delivered_ofList_append, List.map_append]
      exact hsame
    refine ⟨failuresOf_of_lexemes hlexemes, ?_, ?_⟩
    · rw [tokensOf_of_lexemes hlexemes, List.map_append, hbefore]
      rfl
    · rw [delivered_ofList_append]
      exact hfaults

/-! ## Where the input has to end -/

/-- What was expected at the place of an error. -/
def SyntaxError.expected? : SyntaxError → Option Expectation
  | .lexical _ => none
  | .unexpected _ expected | .endOfInput expected _ => some expected

theorem expects_eq_endOfInput {c : Control} : c.expects = .endOfInput ↔ c = .finished := by
  cases c <;> simp [Control.expects]

/-- The state that the reader is in after the given lexemes. -/
structure Reached (s : State) (lexemes : List Lexeme) : Prop where
  inStep : InStep s (lexemes.map .lexeme)
  run : (bare .opening {} none).run (lexemes.map Lexeme.token) = some s.core

namespace Reached

variable {s next : State} {lexemes : List Lexeme} {lx : Lexeme} {cur : Cursor}

theorem step (h : Reached s lexemes) (hstep : s.step lx = some next) :
    Reached next (lexemes ++ [lx]) := by
  constructor
  · rw [List.map_append]
    exact h.inStep.step hstep
  · calc (bare .opening {} none).run ((lexemes ++ [lx]).map Lexeme.token)
        = ((bare .opening {} none).run (lexemes.map Lexeme.token)).bind (·.run [lx.token]) := by
          rw [List.map_append, State.run, List.foldlM_append]
          rfl
      _ = s.core.stepToken lx.token := by
          rw [h.run, Option.bind_some, run_cons]
          exact Option.bind_fun_some _
      _ = (s.step lx).map core := (core_step s lx).symm
      _ = some next.core := by
          rw [hstep]
          rfl

/-- The lexemes up to the last state are a file. -/
theorem exists_file (h : Reached s lexemes) (hs : s.control = .finished) :
    ∃ file : File, file.tokens = lexemes.map Lexeme.token := by
  apply AcceptsFrom.opening
  exact ⟨{}, none, s.core, h.run, dropLines_eq_finished.2 hs⟩

/-- Nothing is left of the text after the lexeme that ends the file. -/
theorem rest_eq_nil (h : Reached s lexemes)
    (hitem : (cur.pull s.control.closing).item? = some (.lexeme lx))
    (hstep : s.step lx = some next) (hnext : next.control = .finished) :
    (cur.pull s.control.closing).cursor.rest = [] := by
  -- The lexemes with this one are a file, so this one is its last divider, and the flag is raised.
  obtain ⟨file, hfile⟩ := (h.step hstep).exists_file hnext
  rw [file.tokens_eq_body_append, List.map_append] at hfile
  obtain ⟨hbody, hdivider⟩ := List.append_inj' hfile rfl
  have hclosing : s.control.closing = true := by
    rw [h.inStep.closing, ruleSchedule_lexemes, ← hbody]
    exact file.rules_begun
  obtain ⟨t, pos⟩ := lx
  obtain rfl : .divider file.tail = t := (List.cons.inj hdivider).1
  rw [hclosing] at hitem ⊢
  obtain ⟨-, -, -, -, -, hend, -⟩ := pull_closing hitem
  exact hend

end Reached

/-- The reader finds no lexeme where it needs the end of the input. -/
theorem expected?_readFrom {s : State} {lexemes : List Lexeme} {cur : Cursor} {e : SyntaxError}
    (h : Reached s lexemes) (hend : s.control = .finished → cur.rest = []) (last : Position)
    (faults : List Fault) (herror : (readFrom cur s last faults).result = .error e) :
    e.expected? ≠ some .endOfInput := by
  induction hn : cur.rest.length using Nat.strongRecOn generalizing lexemes cur s last faults with
  | ind n ih =>
  rcases hitem : (cur.pull s.control.closing).item? with _ | lx | failure
  · rw [result_readFrom_of_none last faults hitem] at herror
    split at herror
    · cases herror
    · next hcontrol =>
      cases herror
      intro hexpected
      exact hcontrol (expects_eq_endOfInput.1 (Option.some.inj hexpected))
  · have hshorter := length_pull hitem
    rw [result_readFrom_of_lexeme last faults hitem] at herror
    split at herror
    · cases herror
      intro hexpected
      have hempty := hend (expects_eq_endOfInput.1 (Option.some.inj hexpected))
      rw [hempty] at hshorter
      cases hshorter
    · next next hstep =>
      have hreached : Reached (afterPull s (cur.pull s.control.closing)) lexemes :=
        ⟨⟨h.inStep.closing, h.inStep.opening⟩, h.run⟩
      have hrest (hnext : next.control = .finished) :
          (cur.pull s.control.closing).cursor.rest = [] := hreached.rest_eq_nil hitem hstep hnext
      exact ih _ (hn ▸ hshorter) (hreached.step hstep) hrest _ _ herror rfl
  · rw [result_readFrom_of_failure last faults hitem] at herror
    cases herror
    simp [SyntaxError.expected?]

theorem expected?_parse {source : String} {e : SyntaxError}
    (h : (parse source).result = .error e) : e.expected? ≠ some .endOfInput := by
  have hreached : Reached {} [] := ⟨⟨rfl, by simp⟩, rfl⟩
  exact expected?_readFrom hreached (by simp) .start [] h

/-! ## The epilogue is opaque -/

/-- The last divider of a file that can be read is found, and the text after it is the epilogue,
whatever it is: with any other text there, if only it starts on a new line, the file has the same
faults and the same grammar but for the epilogue. No file has too much at its end. -/
theorem parse_epilogue :
    (∀ source parsed, (parse source).result = .ok parsed →
      (∃ front rest, ClosesRules source front rest) ∧
      ∀ front rest, ClosesRules source front rest →
        parsed.grammar.epilogue = epilogueOf rest ∧
        ∀ r : String, EndsLine r.toList →
          (parse (front ++ "%%" ++ r)).result =
            .ok ⟨{ parsed.grammar with epilogue := epilogueOf r }, parsed.faults⟩) ∧
    ∀ source e, (parse source).result = .error e → e.expected? ≠ some .endOfInput := by
  refine ⟨?_, fun _ _ ↦ expected?_parse⟩
  intro source parsed h
  obtain ⟨hfailures, file, hfile, rfl⟩ := (parse_eq_ok_iff source parsed).1 h
  obtain ⟨front, rest, hcloses, htail, hother⟩ := exists_closesRules hfailures hfile
  refine ⟨⟨front, rest, hcloses⟩, ?_⟩
  intro front' rest' hcloses'
  obtain ⟨rfl, rfl⟩ := hcloses.unique hcloses'
  refine ⟨epilogue_eq_epilogueOf htail, ?_⟩
  intro r hr
  obtain ⟨hfailures', hfile', hfaults'⟩ := hother r hr
  apply (parse_eq_ok_iff _ _).2
  refine ⟨hfailures', { file with tail := some r }, hfile', ?_⟩
  rw [hfaults', ← epilogue_eq_epilogueOf (f := { file with tail := some r }) rfl]
  rfl

/-- A stray quote stands on the line of the divider, and the other text has a quote that would close
it. -/
theorem parse_epilogue_quote :
    let front := "x : a # \x7b it's \x7d ' ;"
    let file : File :=
      { header := none
        clauses := [⟨"x", [.reference (.plain "a"), .action "\x7b it's \x7d"], []⟩]
        tail := some " end"
        starts_with_rule := by simp }
    ClosesRules (front ++ "%%" ++ " end") front " end" ∧ file.grammar.epilogue = some " end" ∧
      (parse (front ++ "%%" ++ " end")).result =
        .ok ⟨file.grammar, [⟨'#', ⟨6, 1, 7⟩⟩, ⟨'\'', ⟨17, 1, 18⟩⟩]⟩ ∧
      (parse (front ++ "%%" ++ "\nisn't %%")).result =
        .ok ⟨{ file.grammar with epilogue := some "\nisn't %%" },
          [⟨'#', ⟨6, 1, 7⟩⟩, ⟨'\'', ⟨17, 1, 18⟩⟩]⟩ := by
  intro front file
  have hcloses : ClosesRules (front ++ "%%" ++ " end") front " end" :=
    ⟨rfl, by decide +kernel⟩
  have hparsed : (parse (front ++ "%%" ++ " end")).result =
      .ok ⟨file.grammar, [⟨'#', ⟨6, 1, 7⟩⟩, ⟨'\'', ⟨17, 1, 18⟩⟩]⟩ := by
    apply (parse_eq_ok_iff _ _).2
    refine ⟨by decide +kernel, file, by decide +kernel, ?_⟩
    congr 1
    decide +kernel
  obtain ⟨hepilogue, hsame⟩ := (parse_epilogue.1 _ _ hparsed).2 _ _ hcloses
  have hend : epilogueOf " end" = some " end" := by decide +kernel
  have hquote : epilogueOf "\nisn't %%" = some "\nisn't %%" := by decide +kernel
  have hother := hsame "\nisn't %%" (by simp [EndsLine])
  rw [hquote] at hother
  exact ⟨hcloses, hepilogue.trans hend, hparsed, hother⟩

end Grammar

end ParserGenerator
