import ParserGenerator.Proofs.Derivation.Completion
import ParserGenerator.Proofs.Derivation.Productions
import ParserGenerator.Proofs.Derivation.Scanning

/-!
# Warnings about dropped actions

The reader warns of every action that is not the last part of its alternative, when the rule of the
alternative ends. What it has warned of can be told from the tokens alone: `State.warnings` goes
through them as the reader does. The warnings of a whole file are those of its alternatives in the
order of the text, one for each such action, and each names the rule of the alternative.
-/

namespace ParserGenerator

/-- The rule that a warning about a dropped action names. -/
def Event.droppedIn? : Event → Option String
  | .droppedAction _ name => some name
  | _ => none

namespace Derivation

def Element.isAction : Element → Bool
  | .action _ => true
  | _ => false

/-- The name of the rule, once for each action of the alternative that is not its last item. -/
def Place.warnings (p : Place) : List String :=
  (p.alt.dropLast.filter Element.isAction).map fun _ ↦ p.rule.name

end Derivation

namespace Alternative

/-- The rules that the warnings of an alternative name. -/
theorem droppedIn?_events (lhs name : String) (alt : Alternative) :
    (alt.events lhs name).filterMap Event.droppedIn? = alt.droppedLines.map fun _ ↦ name := by
  have hline : Event.droppedIn? ∘ (Event.droppedAction · name) = fun _ ↦ some name := rfl
  rw [events, List.filterMap_append, List.filterMap_map, hline, List.filterMap_eq_map']
  exact List.append_nil _

end Alternative

namespace Grammar

open ParserGenerator.Derivation Lexer State

/-! ## Reports and tokens -/

/-- The rules that the warnings of a finished rule name. -/
def namesDropped (lhs : String) (alts : List Alternative) : List String :=
  (addRuleEvents lhs alts).filterMap Event.droppedIn?

theorem namesDropped_eq (lhs : String) (alts : List Alternative) :
    namesDropped lhs alts =
      ((Alternative.names lhs alts.length).zip alts).flatMap fun (name, alt) ↦
        alt.droppedLines.map fun _ ↦ name := by
  unfold namesDropped addRuleEvents
  rw [List.filterMap_flatMap]
  congr 1
  funext entry
  exact Alternative.droppedIn?_events ..

theorem namesDropped_map_dropLine (lhs : String) (alts : List Alternative) :
    namesDropped lhs (alts.map (·.map Part.dropLine)) = namesDropped lhs alts := by
  have halt (alt : Alternative) (name : String) :
      (Alternative.droppedLines (alt.map Part.dropLine)).map (fun _ ↦ name) =
        alt.droppedLines.map fun _ ↦ name := by
    unfold Alternative.droppedLines
    rw [← List.map_dropLast, List.filterMap_map, List.map_filterMap, List.map_filterMap]
    congr 1
    funext part
    cases part <;> rfl
  rw [namesDropped_eq, namesDropped_eq, List.length_map, List.zip_map_right, List.flatMap_map]
  congr 1
  funext entry
  exact halt entry.2 entry.1

namespace State

/-- The rules that the warnings so far name. -/
def dropped (s : State) : List String := s.events.filterMap Event.droppedIn?

/-- The rules that the warnings at a token name: only the end of a rule brings warnings. -/
def warningsAt (s : State) (t : Token) : List String :=
  match s.control, t with
  | .parts d, .punctuation .semicolon => namesDropped d.lhs d.alternatives
  | _, _ => []

/-- The rules that the warnings name while tokens are read. -/
def warnings : State → List Token → List String
  | _, [] => []
  | s, t :: ts => s.warningsAt t ++ ((s.stepToken t).map (warnings · ts)).getD []

theorem warningsAt_core (s : State) (t : Token) : s.core.warningsAt t = s.warningsAt t := by
  obtain ⟨control, g, firstRule, events⟩ := s
  cases control with
  | parts d =>
    cases t with
    | punctuation p =>
      cases p with
      | semicolon =>
        simp only [warningsAt, core, Control.dropLines, Draft.lhs_dropLines,
          Draft.alternatives_dropLines, namesDropped_map_dropLine]
      | _ => rfl
    | _ => rfl
  | _ => rfl

theorem dropped_definition {s next : State} {t : Token} (h : s.definition t = some next) :
    next.dropped = s.dropped := by
  cases t with
  | keyword k => cases k <;> cases h <;> rfl
  | _ => cases h <;> rfl

theorem dropped_declare (s : State) (d : Declaration) (names : List String) :
    (s.declare d names).dropped = s.dropped := by
  cases d <;> rfl

theorem dropped_tokenName {s next : State} {d : Declaration} {names : List String} {t : Token}
    (h : s.tokenName d names t = some next) : next.dropped = s.dropped := by
  obtain ⟨name, -, rfl⟩ := Option.map_eq_some_iff.1 h
  rfl

theorem dropped_tokenNames {s next : State} {d : Declaration} {names : List String}
    {numbered : Bool} {t : Token} (h : s.tokenNames d names numbered t = some next) :
    next.dropped = s.dropped := by
  unfold tokenNames at h
  split at h
  · split at h
    · rw [dropped_definition h, dropped_declare]
    · cases h
      rfl
  · cases h
    rfl
  · cases h
    rfl
  · cases h
    rfl
  · cases h
    exact dropped_declare s d names
  · rw [dropped_definition h, dropped_declare]

theorem dropped_symbolNames {s next : State} {comma : Bool} {t : Token}
    (h : s.symbolNames comma t = some next) : next.dropped = s.dropped := by
  unfold symbolNames at h
  split at h
  · cases h
    rfl
  · cases h
    rfl
  · split at h
    · exact dropped_definition h
    · cases h
      rfl
  · exact dropped_definition h

theorem dropped_reference (s : State) (d : Draft) (kinds : List FamilyKind) (symbol : String) :
    (s.reference d kinds symbol).dropped = s.dropped := by
  cases kinds <;> rfl

theorem dropped_part {s next : State} {d : Draft} {lx : Lexeme} (hcontrol : s.control = .parts d)
    (h : s.part d lx = some next) : next.dropped = s.dropped ++ s.warningsAt lx.token := by
  unfold part at h
  unfold warningsAt
  rw [hcontrol]
  split at h
  case h_2 htoken =>
    cases h
    rw [htoken]
    exact List.filterMap_append
  case h_7 hsemicolon _ _ _ _ =>
    obtain ⟨kind, -, rfl⟩ := Option.map_eq_some_iff.1 h
    split
    · next d' heq htoken => exact absurd htoken hsemicolon
    · exact (List.append_nil _).symm
  all_goals
    next htoken =>
      cases h
      rw [htoken]
      exact (List.append_nil _).symm

theorem dropped_unwrap {s next : State} {d : Draft} {kind : FamilyKind} {outer : List FamilyKind}
    {symbol : String} {t : Token} (h : s.unwrap d kind outer symbol t = some next) :
    next.dropped = s.dropped := by
  unfold unwrap at h
  split at h
  · cases h
    rw [dropped_reference]
    have hnone : (s.grammar.wrapEvents kind symbol).filterMap Event.droppedIn? = [] := by
      unfold wrapEvents
      split <;> rfl
    unfold dropped
    rw [List.filterMap_append, hnone, List.append_nil]
  · cases h

theorem dropped_wrapped {s next : State} {d : Draft} {kinds : List FamilyKind} {t : Token}
    (h : s.wrapped d kinds t = some next) : next.dropped = s.dropped := by
  unfold wrapped at h
  split at h
  · cases h
    exact dropped_reference ..
  · obtain ⟨kind, -, rfl⟩ := Option.map_eq_some_iff.1 h
    rfl

theorem dropped_sign {p : Punctuation} {t : Token} {s next : State} (h : sign p t s = some next) :
    next.dropped = s.dropped := by
  obtain ⟨-, rfl⟩ := sign_eq_some h
  rfl

theorem dropped_rule {s next : State} {t : Token} (h : s.rule t = some next) :
    next.dropped = s.dropped := by
  cases t <;> cases h <;> rfl

theorem dropped_opening {s next : State} {t : Token} (h : s.opening t = some next) :
    next.dropped = s.dropped := by
  unfold State.opening at h
  split at h
  · exact dropped_rule h
  · exact dropped_definition h

theorem dropped_declaration {s next : State} {d : Declaration} {t : Token}
    (h : s.declaration d t = some next) : next.dropped = s.dropped := by
  unfold State.declaration at h
  split at h
  · cases h
    rfl
  · exact dropped_tokenName h

theorem dropped_unionBlock {s next : State} {t : Token} (h : s.unionBlock t = some next) :
    next.dropped = s.dropped := by
  unfold State.unionBlock at h
  split at h
  · cases h
    rfl
  · exact dropped_definition h

/-- Only the end of a rule brings warnings. -/
theorem dropped_step {s next : State} {lx : Lexeme} (h : s.step lx = some next) :
    next.dropped = s.dropped ++ s.warningsAt lx.token := by
  obtain ⟨control, g, firstRule, events⟩ := s
  obtain ⟨t, pos⟩ := lx
  have hquiet {w : List String} (hw : w = []) (hnext : next.dropped = events.filterMap
      Event.droppedIn?) : next.dropped = events.filterMap Event.droppedIn? ++ w := by
    rw [hnext, hw, List.append_nil]
  cases control with
  | parts d => exact dropped_part rfl h
  | opening => exact hquiet rfl (dropped_opening h)
  | definitions => exact hquiet rfl (dropped_definition h)
  | declaration d => exact hquiet rfl (dropped_declaration h)
  | tokenName d names => exact hquiet rfl (dropped_tokenName h)
  | tokenNames d names numbered => exact hquiet rfl (dropped_tokenNames h)
  | symbolNames comma => exact hquiet rfl (dropped_symbolNames h)
  | unionKeyword =>
    cases t with
    | code text =>
      cases h
      exact hquiet rfl rfl
    | _ => cases h
  | unionBlock => exact hquiet rfl (dropped_unionBlock h)
  | rules => exact hquiet rfl (dropped_rule h)
  | wrapped d kinds => exact hquiet rfl (dropped_wrapped h)
  | unwrapping d kind outer symbol => exact hquiet rfl (dropped_unwrap h)
  | finished => cases h
  | startSymbol | declarationTag _ | typeTag | symbolName =>
    obtain ⟨name, -, rfl⟩ := identifier_eq_some h
    exact hquiet rfl rfl
  | declarationTagEnd _ | typeKeyword | typeTagEnd | ruleName _ =>
    exact hquiet rfl (dropped_sign h)

/-! ## Warnings of a run -/

theorem warnings_append {s next : State} {a : List Token} (h : s.run a = some next)
    (b : List Token) : s.warnings (a ++ b) = s.warnings a ++ next.warnings b := by
  induction a generalizing s with
  | nil =>
    obtain rfl := Option.some.inj h
    rfl
  | cons t a ih =>
    rw [run_cons] at h
    obtain ⟨mid, hstep, hrun⟩ := Option.bind_eq_some_iff.1 h
    simp only [List.cons_append, warnings, hstep, Option.map_some, Option.getD_some, ih hrun,
      List.append_assoc]

theorem warnings_of_forall_ne {ts : List Token} (h : ∀ t ∈ ts, t ≠ .punctuation .semicolon)
    (s : State) : s.warnings ts = [] := by
  induction ts generalizing s with
  | nil => rfl
  | cons t ts ih =>
    obtain ⟨ht, hts⟩ := List.forall_mem_cons.1 h
    have hat : s.warningsAt t = [] := by
      unfold warningsAt
      split
      · exact absurd rfl ht
      · rfl
    rw [warnings, hat, List.nil_append]
    cases s.stepToken t with
    | none => rfl
    | some next => exact ih hts next

theorem closing_of_stepToken {s next : State} {t : Token} (h : s.stepToken t = some next)
    (hnext : next.control.closing = false) : s.control.closing = false := by
  obtain ⟨after, hstep, rfl⟩ := Option.map_eq_some_iff.1 h
  have hraises := (raises_step hstep).2
  have hcore : after.core.control.closing = after.control.closing := closing_dropLines _
  rw [← hcore, hnext] at hraises
  simpa using (Bool.or_eq_false_iff.1 (Bool.or_eq_false_iff.1 hraises.symm).1).1

/-- The first section brings no warnings. -/
theorem warnings_of_closing {ts : List Token} {s next : State} (h : s.run ts = some next)
    (hnext : next.control.closing = false) :
    s.control.closing = false ∧ s.warnings ts = [] := by
  induction ts generalizing s with
  | nil =>
    obtain rfl := Option.some.inj h
    exact ⟨hnext, rfl⟩
  | cons t ts ih =>
    rw [run_cons] at h
    obtain ⟨mid, hstep, hrun⟩ := Option.bind_eq_some_iff.1 h
    obtain ⟨hmid, hwarnings⟩ := ih hrun
    have hs := closing_of_stepToken hstep hmid
    have hat : s.warningsAt t = [] := by
      unfold warningsAt
      split
      · next d hcontrol =>
        rw [hcontrol] at hs
        cases hs
      · rfl
    exact ⟨hs, by simp only [warnings, hat, hstep, Option.map_some, Option.getD_some, hwarnings,
      List.nil_append]⟩

end State

/-! ## Warnings of a file -/

section File

variable {g : Grammar} {firstRule : Option String}

theorem warnings_header (h : Header) : (bare .opening g firstRule).warnings h.tokens = [] := by
  have hrun := @run_opening_header g firstRule [] h
  rw [List.append_nil, Header.tokens, run_append] at hrun
  obtain ⟨mid, hmid, hdivider⟩ := Option.bind_eq_some_iff.1 hrun
  -- In the rule section the divider would end the file.
  have hclosing : mid.control.closing = false := by
    rw [← Bool.not_eq_true]
    intro hclosed
    rw [run_cons] at hdivider
    obtain ⟨core, hcore, hrules⟩ := Option.bind_eq_some_iff.1 hdivider
    obtain ⟨after, hafter, rfl⟩ := Option.map_eq_some_iff.1 hcore
    have hfinished := dropLines_eq_finished.2 (finished_of_divider hclosed hafter)
    have hcontrol := congrArg State.control (Option.some.inj hrules)
    exact absurd (hfinished.symm.trans hcontrol) (by simp [bare])
  rw [Header.tokens, warnings_append hmid, (warnings_of_closing hmid hclosing).2, List.nil_append]
  exact warnings_of_forall_ne (by simp) mid

theorem semicolon_not_mem_reference (r : Reference) :
    ∀ t ∈ r.tokens, t ≠ .punctuation .semicolon := by
  induction r with
  | plain name => simp [Reference.tokens]
  | wrapped kind inner ih =>
    have hopen : openSign kind ≠ .punctuation .semicolon := by cases kind <;> simp [openSign]
    have hclose : closeSign kind ≠ .punctuation .semicolon := by cases kind <;> simp [closeSign]
    intro t ht
    rcases List.mem_cons.1 ht with rfl | ht
    · exact hopen
    · rcases List.mem_append.1 ht with ht | ht
      · exact ih t ht
      · obtain rfl := List.mem_singleton.1 ht
        exact hclose

theorem semicolon_not_mem_elements (alt : List Element) :
    ∀ t ∈ alt.flatMap Element.tokens, t ≠ .punctuation .semicolon := by
  intro t ht
  obtain ⟨e, -, ht⟩ := List.mem_flatMap.1 ht
  cases e with
  | reference r => exact semicolon_not_mem_reference r t ht
  | _ =>
    obtain rfl := List.mem_singleton.1 ht
    simp

theorem warnings_alternatives (lhs : String) (finished : List (List Element))
    (current : List Element) (more : List (List Element)) :
    (bare (.parts (draftOf lhs finished current)) g firstRule).warnings
        (more.flatMap (fun alt ↦ .punctuation .bar :: alt.flatMap Element.tokens) ++
          [.punctuation .semicolon]) =
      namesDropped lhs ((finished ++ current :: more).map (·.map partOf)) := by
  induction more generalizing g finished current with
  | nil =>
    rw [← alternatives_draftOf]
    exact List.append_nil _
  | cons alt more ih =>
    have hrun : (bare (.parts (draftOf lhs finished current)) g firstRule).run
        (.punctuation .bar :: alt.flatMap Element.tokens) =
          some (bare (.parts (draftOf lhs (finished ++ [current]) alt))
            (g.request (alt.flatMap Element.bases)) firstRule) := by
      have hbar : (bare (.parts (draftOf lhs finished current)) g firstRule).stepToken
          (.punctuation .bar) =
            some (bare (.parts (draftOf lhs (finished ++ [current]) [])) g firstRule) := by
        apply congrArg some
        simp [bare, goto, core, Control.dropLines, nextAlternative_draftOf]
      have helements := @run_elements g firstRule [] lhs (finished ++ [current]) [] alt
      rw [run_cons_of_stepToken hbar]
      simpa using helements
    have hquiet : ∀ t ∈ Token.punctuation .bar :: alt.flatMap Element.tokens,
        t ≠ .punctuation .semicolon := by
      rw [List.forall_mem_cons]
      exact ⟨by simp, semicolon_not_mem_elements alt⟩
    rw [List.flatMap_cons, List.append_assoc, warnings_append hrun, warnings_of_forall_ne hquiet,
      ih, List.nil_append, List.append_assoc, List.singleton_append]

theorem warnings_clause (c : Clause) :
    (bare .rules g firstRule).warnings c.tokens =
      namesDropped c.lhs (c.alternatives.map (·.map partOf)) := by
  have hrun : (bare .rules g firstRule).run
      (.identifier c.lhs :: .punctuation .colon :: c.first.flatMap Element.tokens) =
        some (bare (.parts (draftOf c.lhs [] c.first)) (g.request (c.first.flatMap Element.bases))
          firstRule) := by
    have helements := @run_elements g firstRule [] c.lhs [] [] c.first
    rw [List.append_nil, List.nil_append, run_nil] at helements
    exact helements
  have hquiet : ∀ t ∈ Token.identifier c.lhs :: .punctuation .colon ::
      c.first.flatMap Element.tokens, t ≠ .punctuation .semicolon := by
    rw [List.forall_mem_cons, List.forall_mem_cons]
    exact ⟨by simp, by simp, semicolon_not_mem_elements c.first⟩
  rw [Clause.tokens, List.append_assoc, warnings_append hrun, warnings_of_forall_ne hquiet,
    warnings_alternatives]
  rfl

theorem droppedLines_map_partOf (alt : List Element) (name : String) :
    (Alternative.droppedLines (alt.map partOf)).map (fun _ ↦ name) =
      (alt.dropLast.filter Element.isAction).map fun _ ↦ name := by
  unfold Alternative.droppedLines
  rw [← List.map_dropLast, List.filterMap_map, List.map_filterMap, ← List.filterMap_eq_filter,
    List.map_filterMap]
  congr 1
  funext e
  cases e <;> rfl

/-- The warnings of a rule, one for each action that is not the last item of its alternative. -/
theorem namesDropped_places (c : Clause) :
    namesDropped c.lhs (c.alternatives.map (·.map partOf)) = c.places.flatMap Place.warnings := by
  have hentries : ((List.range c.alternatives.length).map c.nameOf).zip
      (c.alternatives.map (·.map partOf)) =
        c.places.map fun p ↦ (p.rule.name, p.alt.map partOf) := by
    apply List.ext_getElem
    · simp [Clause.places]
    · intro i h1 h2
      simp [Clause.places, Place.rule, Clause.ruleOf]
  rw [namesDropped_eq, List.length_map, names_eq_map_nameOf, hentries, List.flatMap_map]
  congr 1
  funext p
  exact droppedLines_map_partOf p.alt p.rule.name

theorem run_clause_tokens (c : Clause) :
    (bare .rules g firstRule).run c.tokens =
      some (bare .rules (g.addClause c) (firstRule <|> some c.lhs)) := by
  have hrun := @run_clause g firstRule [] c
  rwa [List.append_nil] at hrun

theorem warnings_clauses (cs : List Clause) {rest : List Token}
    (hrest : ∀ t ∈ rest, t ≠ .punctuation .semicolon) :
    (bare .rules g firstRule).warnings (cs.flatMap Clause.tokens ++ rest) =
      cs.flatMap fun c ↦ c.places.flatMap Place.warnings := by
  induction cs generalizing g firstRule with
  | nil => exact warnings_of_forall_ne hrest _
  | cons c cs ih =>
    rw [List.flatMap_cons, List.append_assoc, warnings_append (run_clause_tokens c),
      warnings_clause, namesDropped_places, ih, List.flatMap_cons]

theorem warnings_opening_clauses {cs : List Clause} (hne : cs ≠ []) (rest : List Token) :
    (bare .opening g firstRule).warnings (cs.flatMap Clause.tokens ++ rest) =
      (bare .rules g firstRule).warnings (cs.flatMap Clause.tokens ++ rest) := by
  cases cs with
  | nil => exact absurd rfl hne
  | cons c cs => rfl

end File

/-- A file brings the warnings of its alternatives in the order of the text. -/
theorem warnings_file (f : File) :
    (bare .opening {} none).warnings f.tokens = f.places.flatMap Place.warnings := by
  have hdivider : ∀ t ∈ [Token.divider f.tail], t ≠ .punctuation .semicolon := by simp
  have hclauses : (f.clauses.flatMap fun c ↦ c.places.flatMap Place.warnings) =
      f.places.flatMap Place.warnings := by
    rw [File.places, List.flatMap_assoc]
  cases hheader : f.header with
  | none =>
    have htokens : f.tokens = f.clauses.flatMap Clause.tokens ++ [.divider f.tail] := by
      simp [File.tokens, hheader]
    rw [htokens, warnings_opening_clauses (f.starts_with_rule hheader),
      warnings_clauses _ hdivider, hclauses]
  | some h =>
    have hrun := @run_opening_header {} none [] h
    rw [List.append_nil, run_nil] at hrun
    have htokens : f.tokens =
        h.tokens ++ (f.clauses.flatMap Clause.tokens ++ [.divider f.tail]) := by
      simp [File.tokens, hheader]
    rw [htokens, warnings_append hrun, warnings_header, warnings_clauses _ hdivider, hclauses,
      List.nil_append]

/-! ## Warnings of a reading -/

theorem dropped_finish (s : State) : s.finish.dropped = s.dropped := by
  unfold finish
  split
  · split
    · exact List.filterMap_append.trans (List.append_nil _)
    · rfl
  · rfl

theorem droppedIn?_events_pull (p : Pull) : p.events.filterMap Event.droppedIn? = [] := by
  have hfaults : (p.faults.map Event.illegalCharacter).filterMap Event.droppedIn? = [] := by
    rw [List.filterMap_map, List.filterMap_eq_nil_iff]
    exact fun _ _ ↦ rfl
  rw [Pull.events, List.filterMap_append, hfaults, List.nil_append]
  split <;> rfl

theorem dropped_afterPull (s : State) (p : Pull) : (afterPull s p).dropped = s.dropped := by
  unfold dropped afterPull
  rw [List.filterMap_append, droppedIn?_events_pull, List.append_nil]

theorem warningsAt_afterPull (s : State) (p : Pull) (t : Token) :
    (afterPull s p).warningsAt t = s.warningsAt t := rfl

section ReadFrom

variable {cur : Cursor} {s : State} (last : Text.Position) (faults : List Fault)

theorem events_readFrom_of_none (h : (cur.pull s.control.closing).item? = none)
    (hs : s.control = .finished) :
    (readFrom cur s last faults).events =
      (afterPull s (cur.pull s.control.closing)).finish.events := by
  rw [readFrom]
  split
  · rw [if_pos hs]
    rfl
  · simp_all
  · simp_all

theorem events_readFrom_of_lexeme {lx : Lexeme} {next : State}
    (h : (cur.pull s.control.closing).item? = some (.lexeme lx))
    (hstep : (afterPull s (cur.pull s.control.closing)).step lx = some next) :
    (readFrom cur s last faults).events =
      (readFrom (cur.pull s.control.closing).cursor next lx.pos
        (faults ++ (cur.pull s.control.closing).faults)).events := by
  rw [readFrom]
  split
  · simp_all
  · simp_all
  · next lx' hitem =>
    obtain rfl : lx' = lx := by simpa [hitem] using h
    unfold afterPull at hstep
    simp only [hstep]

end ReadFrom

/-- What a reading that succeeds has warned of can be told from its tokens. -/
theorem droppedIn?_events_readFrom {n : Nat} {seen : List Item} {cur : Cursor} {s : State}
    (hn : cur.rest.length < n) (hs : InStep s seen) (last : Text.Position) (faults : List Fault)
    {parsed : Parsed} (h : (readFrom cur s last faults).result = .ok parsed) :
    (readFrom cur s last faults).events.filterMap Event.droppedIn? =
      s.dropped ++ s.core.warnings (tokensOf (pulls ruleSchedule n seen cur)) := by
  induction n generalizing seen cur s last faults with
  | zero => omega
  | succ n ih =>
    have hclosing := hs.closing
    rcases hitem : (cur.pull (ruleSchedule seen)).item? with _ | lx | e
    · have hnone := hclosing ▸ hitem
      rw [result_readFrom_of_none last faults hnone] at h
      have hfinished : s.control = .finished := by
        split at h
        · assumption
        · cases h
      have hdropped := dropped_finish (afterPull s (cur.pull s.control.closing))
      rw [dropped_afterPull] at hdropped
      rw [events_readFrom_of_none last faults hnone hfinished, pulls_of_item?_eq_none hitem,
        tokensOf_singleton_none hitem, warnings, List.append_nil]
      exact hdropped
    · have hlexeme := hclosing ▸ hitem
      rw [result_readFrom_of_lexeme last faults hlexeme] at h
      cases hstep : (afterPull s (cur.pull s.control.closing)).step lx with
      | none =>
        rw [hstep] at h
        cases h
      | some next =>
        rw [hstep] at h
        have hnext : InStep next (seen ++ [.lexeme lx]) :=
          InStep.step (s := afterPull s _) ⟨hs.closing, hs.opening⟩ hstep
        have hlen := length_pull hitem
        have hcore : s.core.stepToken lx.token = some next.core := by
          have hcommutes := core_step (afterPull s (cur.pull s.control.closing)) lx
          rw [hstep] at hcommutes
          exact hcommutes.symm
        have hdropped := dropped_step hstep
        rw [dropped_afterPull, warningsAt_afterPull] at hdropped
        rw [events_readFrom_of_lexeme last faults hlexeme hstep, ih _ hnext _ _ h, hdropped,
          pulls_of_item?_eq_some hitem, tokensOf_cons_lexeme hitem, warnings, warningsAt_core,
          hcore, hclosing, List.append_assoc]
        · rfl
        · rw [hclosing]
          omega
    · rw [result_readFrom_of_failure last faults (hclosing ▸ hitem)] at h
      cases h

/-- Every action that is not the last item of its alternative brings one warning, which names the
rule of the alternative. -/
theorem droppedIn?_events_parse {source : String} {parsed : Parsed}
    (h : (parse source).result = .ok parsed) {file : File}
    (hfile : file.tokens = tokensOf (delivered source)) :
    (parse source).events.filterMap Event.droppedIn? = file.places.flatMap Place.warnings := by
  have hlen : (Cursor.ofString source).rest.length < source.length + 1 := by
    rw [← String.length_toList]
    exact Nat.lt_succ_self _
  have hread := @droppedIn?_events_readFrom _ [] _ {} hlen ⟨rfl, by simp⟩ .start [] parsed h
  rw [← warnings_file, hfile]
  exact hread

end Grammar

end ParserGenerator
