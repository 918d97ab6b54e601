import ParserGenerator.Proofs.Derivation.Epilogue
import ParserGenerator.Proofs.Lexer.Printing

/-!
# Completions

As long as a file has not ended, whatever the reader has taken can be completed: every control state
has a row of tokens that ends what has been begun and leads to the rule section, which a divider then
closes. The tokens so far and the completion, printed one to a line, are a source from which the
reader is given just these tokens, so the tokens so far are where some file begins.
-/

namespace ParserGenerator

namespace Lexer

open Text Grammar

/-! ## Tokens under the flag -/

namespace Segment

variable {closing : Bool} {c : Char} {rest after : List Char} {t : Token}

/-- The flag matters to dividers only. -/
theorem first_of_not_isDivider (ht : isDivider t = false)
    (h : first false c rest = (.token t, after)) : first closing c rest = (.token t, after) := by
  cases closing with
  | false => exact h
  | true =>
    by_cases hc : c = '%'
    · subst hc
      rw [first_percent] at h ⊢
      unfold percent at h ⊢
      split at h
      · simpa using h
      · obtain ⟨hseg, -⟩ := Prod.mk.inj h
        obtain rfl := Segment.token.inj hseg
        cases ht
      · simpa using h
    · rw [← h]
      simp only [first, if_neg hc]

theorem eq_none_of_first_divider {tail : Option String}
    (h : first false c rest = (.token (.divider tail), after)) : tail = none := by
  have happ := text_append_first false c rest
  simp only [h, text, toList_text_divider, List.cons_append] at happ
  obtain ⟨rfl, rfl⟩ := List.cons.inj happ
  rw [first_divider] at h
  exact (Token.divider.inj (Segment.token.inj (Prod.mk.inj h).1)).symm

theorem closeBlock_of_first_code {text : String}
    (h : first closing c rest = (.token (.code text), after)) :
    ∃ body, text.toList = '{' :: body ∧ closeBlock 0 body = some (body, []) := by
  have happ := text_append_first closing c rest
  have hfits := fits_first closing c rest
  rw [h] at happ hfits
  obtain ⟨body, htext⟩ : ∃ body, text.toList = '{' :: body ++ ['}'] := hfits.1
  obtain rfl : '{' = c := by
    simp only [Segment.text, Token.text, htext, List.cons_append] at happ
    exact (List.cons.inj happ).1
  rw [first_brace, brace] at h
  split at h
  · next code after' hclose =>
    obtain ⟨hseg, -⟩ := Prod.mk.inj h
    obtain rfl := Token.code.inj (Segment.token.inj hseg)
    have hbroken : BreaksOff ('}' :: after') ['}'] :=
      .last (by decide) after' (by simp [EndsLine])
    have hbody := closeBlock_append hclose hbroken
    rw [List.append_nil] at hbody
    exact ⟨code, by simp, hbody⟩
  · cases (Prod.mk.inj h).1

/-- A token is well-formed unless it is a divider that takes the rest. -/
theorem wellFormed_of_first (h : first closing c rest = (.token t, after))
    (hclosing : isDivider t = true → closing = false) : WellFormed t := by
  have hfits := fits_first closing c rest
  rw [h] at hfits
  have hshaped : Shaped t := hfits.1
  cases t with
  | divider tail =>
    obtain rfl := hclosing rfl
    exact eq_none_of_first_divider h
  | code text => exact closeBlock_of_first_code h
  | _ => exact hshaped

end Segment

/-- A token on a line of its own is pulled whole. -/
theorem pull_line {t : Token} (h : WellFormed t) {closing : Bool}
    (hclosing : isDivider t = true → closing = false) {v : List Char} (hv : EndsLine v)
    (pos : Position) :
    (Cursor.mk ('\n' :: (t.text.toList ++ v)) pos).pull closing =
      ⟨[], some (.lexeme ⟨t, pos.step '\n'⟩), ⟨v, (pos.step '\n').advance t.text.toList⟩⟩ := by
  obtain ⟨c, s, htext, hblank, hfirst⟩ := first_of_wellFormed h hv
  have htoken : Segment.first closing c (s ++ v) = (.token t, v) := by
    cases ht : isDivider t with
    | true => rw [hclosing ht, hfirst]
    | false => exact Segment.first_of_not_isDivider ht hfirst
  calc (Cursor.mk ('\n' :: (t.text.toList ++ v)) pos).pull closing
      = pullFrom closing ('\n' :: c :: (s ++ v)) pos := by
        rw [htext]
        rfl
    _ = pullFrom closing (c :: (s ++ v)) (pos.step '\n') := pullFrom_feed hblank _ pos
    _ = _ := pullFrom_token _ htoken

/-- A divider on the last line is pulled as the one that closes the last section. -/
theorem itemsOf_pulls_lastLine {schedule : List Item → Bool} {seen : List Item}
    (h : schedule seen = true) (n : Nat) (pos : Position) :
    itemsOf (pulls schedule (n + 1) seen ⟨['\n', '%', '%'], pos⟩) =
      [.lexeme ⟨.divider (some ""), pos.step '\n'⟩] := by
  have hpull : (Cursor.mk ['\n', '%', '%'] pos).pull (schedule seen) =
      ⟨[], some (.lexeme ⟨.divider (some ""), pos.step '\n'⟩),
        ⟨[], (pos.step '\n').advance ['%', '%']⟩⟩ := by
    rw [h]
    exact (pullFrom_feed (by decide) ['%'] pos).trans
      (pullFrom_token _ (Segment.first_divider true []))
  rw [itemsOf_pulls_succ (congrArg Pull.item? hpull), hpull]
  exact congrArg (_ :: ·) (pulls_of_rest_eq_nil rfl _ _ _).1

end Lexer

namespace Grammar

open ParserGenerator.Derivation Lexer State Text

/-! ## Printing what has been read -/

theorem reached_nil : Reached {} [] := ⟨⟨rfl, by simp⟩, rfl⟩

/-- What the lexer reports does not matter. -/
theorem Reached.afterPull {s : State} {lexemes : List Lexeme} (h : Reached s lexemes) (p : Pull) :
    Reached (afterPull s p) lexemes := ⟨⟨h.inStep.closing, h.inStep.opening⟩, h.run⟩

theorem exists_eq_divider {t : Token} (h : isDivider t = true) : ∃ tail, t = .divider tail := by
  cases t with
  | divider tail => exact ⟨tail, rfl⟩
  | _ => cases h

/-- A divider in the rule section ends the file. -/
theorem finished_of_divider {s next : State} {tail : Option String} {pos : Position}
    (hs : s.control.closing = true) (h : s.step ⟨.divider tail, pos⟩ = some next) :
    next.control = .finished := by
  obtain ⟨control, g, firstRule, events⟩ := s
  cases control with
  | rules =>
    cases h
    rfl
  | unwrapping d kind outer symbol => cases kind <;> cases h
  | ruleName lhs => cases h
  | parts d => cases h
  | wrapped d kinds => cases h
  | finished => cases h
  | _ => cases hs

theorem control_of_run_finished {s final : State} {ts : List Token} (hs : s.control = .finished)
    (h : s.run ts = some final) : final.control = .finished := by
  cases ts with
  | nil =>
    obtain rfl := Option.some.inj h
    exact hs
  | cons t ts =>
    have hnone : s.stepToken t = none := by simp [stepToken, step, hs]
    rw [run_cons, hnone] at h
    cases h

/-- Tokens that the reader takes, without coming to the end of the file, are delivered to it when
they are printed one to a line. -/
theorem exists_reached_of_run {ts : List Token} (hts : ∀ t ∈ ts, WellFormed t) {s final : State}
    {before : List Lexeme} (h : Reached s before) (hrun : s.core.run ts = some final)
    (hfinal : final.control ≠ .finished) {v : List Char} (hv : EndsLine v) (n : Nat)
    (pos : Position) :
    ∃ (lexemes : List Lexeme) (next : State) (pos' : Position),
      lexemes.map Lexeme.token = ts ∧ Reached next (before ++ lexemes) ∧ next.core = final ∧
      itemsOf (pulls ruleSchedule (n + ts.length) (before.map .lexeme)
          ⟨laterLines ts ++ v, pos⟩) =
        lexemes.map .lexeme ++
          itemsOf (pulls ruleSchedule n ((before ++ lexemes).map .lexeme) ⟨v, pos'⟩) := by
  -- One token in each step. A divider is printed without a rest, and it is pulled without one, for
  -- in the rule section it would end the file.
  induction ts generalizing s before pos with
  | nil =>
    obtain rfl := Option.some.inj hrun
    exact ⟨[], s, pos, rfl, by simpa using h, rfl, by simp [laterLines]⟩
  | cons t ts ih =>
    obtain ⟨ht, hts⟩ := List.forall_mem_cons.1 hts
    rw [run_cons, ← core_step s ⟨t, pos.step '\n'⟩] at hrun
    obtain ⟨core, hcore, hlater⟩ := Option.bind_eq_some_iff.1 hrun
    obtain ⟨next, hstep, rfl⟩ := Option.map_eq_some_iff.1 hcore
    have hclosing : isDivider t = true → ruleSchedule (before.map .lexeme) = false := by
      intro hdivider
      rw [← h.inStep.closing, ← Bool.not_eq_true]
      intro hclosed
      obtain ⟨tail, rfl⟩ := exists_eq_divider hdivider
      have hnext := dropLines_eq_finished.2 (finished_of_divider hclosed hstep)
      exact hfinal (control_of_run_finished (s := next.core) hnext hlater)
    obtain ⟨lexemes, last, pos', htokens, hreached, hlast, hitems⟩ :=
      ih hts (h.step hstep) hlater ((pos.step '\n').advance t.text.toList)
    have hlines : laterLines (t :: ts) ++ v = '\n' :: (t.text.toList ++ (laterLines ts ++ v)) := by
      simp [laterLines]
    have hends : EndsLine (laterLines ts ++ v) := by
      cases ts with
      | nil => simpa [laterLines] using hv
      | cons u ts => simp [laterLines, EndsLine]
    have hpull := pull_line ht hclosing hends pos
    refine ⟨⟨t, pos.step '\n'⟩ :: lexemes, last, pos', by rw [List.map_cons, htokens], ?_, hlast, ?_⟩
    · simpa using hreached
    · rw [hlines, List.length_cons, ← Nat.add_assoc, itemsOf_pulls_succ (congrArg Pull.item? hpull),
        hpull]
      simpa using hitems

theorem dropLines_eq_rules {c : Control} : c.dropLines = .rules ↔ c = .rules := by
  cases c <;> simp [Control.dropLines]

/-- A source that is accepted delivers the tokens. -/
def Accepted (ts : List Token) : Prop :=
  ∃ source parsed, (parse source).result = .ok parsed ∧ tokensOf (delivered source) = ts

theorem accepted_of_lexemes {source : String} {lexemes : List Lexeme} {file : File}
    (hitems : itemsOf (delivered source) = lexemes.map .lexeme)
    (hfile : file.tokens = lexemes.map Lexeme.token) : Accepted (lexemes.map Lexeme.token) := by
  have htokens := tokensOf_of_lexemes hitems
  have hfailures := failuresOf_of_lexemes hitems
  have hparsed := (parse_eq_ok_iff source _).2 ⟨hfailures, file, hfile.trans htokens.symm, rfl⟩
  exact ⟨source, _, hparsed, htokens⟩

/-- In the rule section a divider completes the file. -/
theorem Reached.exists_file_of_rules {s : State} {lexemes : List Lexeme} (h : Reached s lexemes)
    (hs : s.control = .rules) (tail : Option String) (pos : Position) :
    ∃ file : File, file.tokens = (lexemes ++ [Lexeme.mk (.divider tail) pos]).map Lexeme.token := by
  have hstep : s.step ⟨.divider tail, pos⟩ = some { s with
      control := .finished
      grammar := { s.grammar with epilogue := epilogue? tail } } := by
    simp [State.step, hs, State.rule]
  exact (h.step hstep).exists_file rfl

theorem accepted_of_run {ts : List Token} (hts : ∀ t ∈ ts, WellFormed t) {final : State}
    (hrun : (bare .opening {} none).run ts = some final) (hfinal : final.control = .rules) :
    Accepted (ts ++ [.divider (some "")]) := by
  let source := String.ofList (laterLines ts ++ ['\n', '%', '%'])
  have hsource : source.toList = laterLines ts ++ ['\n', '%', '%'] := String.toList_ofList
  obtain ⟨n, hn⟩ : ∃ n, source.length + 1 = n + 1 + ts.length := by
    have hlines := length_le_laterLines ts
    rw [← String.length_toList, hsource, List.length_append]
    exact ⟨(laterLines ts).length + 3 - ts.length, by simp; omega⟩
  have hends : EndsLine ['\n', '%', '%'] := by simp [EndsLine]
  obtain ⟨lexemes, last, pos, rfl, hreached, rfl, hitems⟩ :=
    exists_reached_of_run hts reached_nil hrun (by simp [hfinal]) hends (n + 1) .start
  have hcontrol : last.control = .rules := dropLines_eq_rules.1 hfinal
  have hclosing : ruleSchedule (lexemes.map .lexeme) = true := by
    have hflag := hreached.inStep.closing
    rw [hcontrol] at hflag
    exact hflag.symm
  have hlexemes : itemsOf (delivered source) =
      (lexemes ++ [Lexeme.mk (.divider (some "")) (pos.step '\n')]).map .lexeme := by
    calc itemsOf (delivered source)
        = lexemes.map .lexeme ++ itemsOf (pulls ruleSchedule (n + 1) (lexemes.map .lexeme)
            ⟨['\n', '%', '%'], pos⟩) := by
          rw [delivered, Lexer.read, Option.getD_none, hn, Cursor.ofString, hsource]
          exact hitems
      _ = lexemes.map .lexeme ++ [.lexeme ⟨.divider (some ""), pos.step '\n'⟩] := by
          rw [itemsOf_pulls_lastLine hclosing]
      _ = (lexemes ++ [Lexeme.mk (.divider (some "")) (pos.step '\n')]).map .lexeme := by
          rw [List.map_append]
          rfl
  obtain ⟨file, hfile⟩ := hreached.exists_file_of_rules hcontrol (some "") (pos.step '\n')
  have haccepted := accepted_of_lexemes hlexemes hfile
  rwa [List.map_append] at haccepted

/-! ## Completing a file -/

/-- Tokens that end what has been begun and lead to the rule section. -/
def completion : Control → List Token
  | .opening | .definitions | .tokenNames _ _ _ | .symbolNames _ | .unionBlock => [.divider none]
  | .startSymbol | .declaration _ | .tokenName _ _ | .symbolName =>
    [.identifier "x", .divider none]
  | .declarationTag _ | .typeTag =>
    [.identifier "x", .punctuation .greater, .identifier "x", .divider none]
  | .declarationTagEnd _ | .typeTagEnd =>
    [.punctuation .greater, .identifier "x", .divider none]
  | .typeKeyword =>
    [.punctuation .less, .identifier "x", .punctuation .greater, .identifier "x", .divider none]
  | .unionKeyword => [.code "\x7b\x7d", .divider none]
  | .rules | .finished => []
  | .ruleName _ => [.punctuation .colon, .punctuation .semicolon]
  | .parts _ => [.punctuation .semicolon]
  | .wrapped _ kinds => .identifier "x" :: kinds.map closeSign ++ [.punctuation .semicolon]
  | .unwrapping _ kind outer _ =>
    closeSign kind :: outer.map closeSign ++ [.punctuation .semicolon]

theorem wellFormed_completion (c : Control) : ∀ t ∈ completion c, WellFormed t := by
  have hname : WellFormed (.identifier "x") := ⟨'x', [], rfl, by decide, rfl⟩
  have hcode : WellFormed (.code "\x7b\x7d") := ⟨['}'], by decide, by decide +kernel⟩
  have hdivider : WellFormed (.divider none) := rfl
  have hsign (p : Punctuation) : WellFormed (.punctuation p) := trivial
  have hclose (kind : FamilyKind) : WellFormed (closeSign kind) := by cases kind <;> trivial
  have hcloses (kinds : List FamilyKind) :
      ∀ t ∈ kinds.map closeSign ++ [.punctuation .semicolon], WellFormed t := by
    intro t ht
    rcases List.mem_append.1 ht with hmem | hmem
    · obtain ⟨kind, -, rfl⟩ := List.mem_map.1 hmem
      exact hclose kind
    · obtain rfl := List.mem_singleton.1 hmem
      exact hsign .semicolon
  cases c with
  | wrapped d kinds => exact List.forall_mem_cons.2 ⟨hname, hcloses kinds⟩
  | unwrapping d kind outer symbol => exact hcloses (kind :: outer)
  | _ => simp [completion, hname, hcode, hdivider, hsign]

section Completion

variable {g : Grammar} {firstRule : Option String}

/-- The shorthands that are open are closed from the inside out. -/
theorem run_closeSigns {d : Draft} (hd : d.dropLines = d) (kinds : List FamilyKind)
    (symbol : String) :
    ∃ next, (bare (afterSymbol d kinds symbol) g firstRule).run
      (kinds.map closeSign ++ [.punctuation .semicolon]) = some next ∧ next.control = .rules := by
  induction kinds generalizing symbol g with
  | nil => exact ⟨_, rfl, rfl⟩
  | cons kind outer ih =>
    obtain ⟨next, hrun, hnext⟩ := @ih (g.wrap kind symbol) (kind.derived symbol)
    refine ⟨next, ?_, hnext⟩
    rw [List.map_cons, List.cons_append]
    exact (run_cons_of_stepToken (stepToken_closeSign hd kind outer symbol) _).trans hrun

/-- A file that has not ended can be completed. -/
theorem run_completion {c : Control} (hc : c ≠ .finished) (hlines : c.dropLines = c) :
    ∃ next, (bare c g firstRule).run (completion c) = some next ∧ next.control = .rules := by
  cases c with
  | tokenNames d names numbered => cases d <;> exact ⟨_, rfl, rfl⟩
  | tokenName d names => cases d <;> exact ⟨_, rfl, rfl⟩
  | declaration d => cases d <;> exact ⟨_, rfl, rfl⟩
  | declarationTag d => cases d <;> exact ⟨_, rfl, rfl⟩
  | declarationTagEnd d => cases d <;> exact ⟨_, rfl, rfl⟩
  | wrapped d kinds =>
    have hd : d.dropLines = d := (Control.wrapped.inj hlines).1
    obtain ⟨next, hrun, hnext⟩ := @run_closeSigns g firstRule d hd kinds "x"
    refine ⟨next, ?_, hnext⟩
    have hname : (bare (.wrapped d kinds) g firstRule).stepToken (.identifier "x") =
        some (bare (afterSymbol d kinds "x") g firstRule) :=
      congrArg some (core_reference_bare _ hd kinds "x")
    exact (run_cons_of_stepToken hname _).trans hrun
  | unwrapping d kind outer symbol =>
    exact run_closeSigns (Control.unwrapping.inj hlines).1 (kind :: outer) symbol
  | finished => exact absurd rfl hc
  | _ => exact ⟨_, rfl, rfl⟩

end Completion

theorem run_append (s : State) (a b : List Token) : s.run (a ++ b) = (s.run a).bind (·.run b) := by
  rw [State.run, List.foldlM_append]
  rfl

/-- Some accepted source begins with the tokens. -/
def Viable (ts : List Token) : Prop := ∃ rest, Accepted (ts ++ rest)

theorem Viable.of_append {ts rest : List Token} (h : Viable (ts ++ rest)) : Viable ts := by
  obtain ⟨more, hmore⟩ := h
  exact ⟨rest ++ more, by rwa [← List.append_assoc]⟩

/-- What an accepted source begins with is taken by the reader. -/
theorem Viable.exists_run {ts : List Token} (h : Viable ts) :
    ∃ s, (bare .opening {} none).run ts = some s := by
  obtain ⟨rest, source, parsed, hparsed, htokens⟩ := h
  obtain ⟨-, file, hfile, -⟩ := (parse_eq_ok_iff source parsed).1 hparsed
  have hrun := run_file file
  rw [hfile, htokens, run_append] at hrun
  obtain ⟨s, hs, -⟩ := Option.bind_eq_some_iff.1 hrun
  exact ⟨s, hs⟩

/-- What the reader has taken before the end of the file can be completed by further tokens. -/
theorem Reached.exists_accepted {s : State} {lexemes : List Lexeme} (h : Reached s lexemes)
    (hs : s.control ≠ .finished) (hlexemes : ∀ lx ∈ lexemes, WellFormed lx.token) :
    ∃ rest ≠ [], Accepted (lexemes.map Lexeme.token ++ rest) := by
  have hcontrol : s.core.control ≠ .finished := mt dropLines_eq_finished.1 hs
  have hlines : s.core.control.dropLines = s.core.control := by
    cases hc : s.control <;> simp [core, hc, Control.dropLines]
  obtain ⟨next, hrun, hnext⟩ :=
    @run_completion s.grammar s.firstRule s.core.control hcontrol hlines
  refine ⟨completion s.core.control ++ [.divider (some "")], by simp, ?_⟩
  rw [← List.append_assoc]
  apply accepted_of_run _ _ hnext
  · intro t ht
    rcases List.mem_append.1 ht with hbefore | hlater
    · obtain ⟨lx, hlx, rfl⟩ := List.mem_map.1 hbefore
      exact hlexemes lx hlx
    · exact wellFormed_completion _ t hlater
  · rw [run_append, h.run]
    exact hrun

end Grammar

end ParserGenerator
