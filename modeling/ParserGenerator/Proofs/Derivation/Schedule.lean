import ParserGenerator.Proofs.Derivation.Soundness

/-!
# When the rule section begins

The reader drives the lexer: a divider takes the rest of the file once the rule section has begun.
The control state of the reader says when that is, and so do the items so far: the section begins
after the first divider, or at once in a file that starts with a name. Each step of the reader keeps
the two in step, so the flag that the reader gives the lexer is a function of the items.
-/

namespace ParserGenerator

namespace Lexer

/-- The first item is a name, so the file starts with a rule. -/
def startsWithName (items : List Item) : Bool :=
  match items.head? with
  | some (.lexeme ⟨.identifier _, _⟩) => true
  | _ => false

/-- The rule section begins after the first divider, or at once in a file that starts with a
rule. -/
def ruleSchedule (items : List Item) : Bool := startsWithName items || closingAfterDivider items

end Lexer

namespace Grammar

open ParserGenerator.Derivation Lexer State

def isDivider : Token → Bool
  | .divider _ => true
  | _ => false

def isIdentifier : Token → Bool
  | .identifier _ => true
  | _ => false

@[simp] theorem control_goto (s : State) (c : Control) : (s.goto c).control = c := rfl

@[simp] theorem control_setStart (s : State) (name : String) :
    (s.setStart name).control = .definitions := rfl

/-- A step raises the flag at a divider, and at a name that starts the file. -/
def Raises (c : Control) (t : Token) (c' : Control) : Prop :=
  c' ≠ .opening ∧
    c'.closing = (c.closing || isDivider t || (decide (c = .opening) && isIdentifier t))

theorem raises_of_closing {c c' : Control} (hc : c.closing = true) (hc' : c'.closing = true)
    (t : Token) : Raises c t c' := by
  refine ⟨?_, by simp [hc, hc']⟩
  rintro rfl
  cases hc'

/-- A step between two states of the first section. -/
theorem raises_of_not_closing {c c' : Control} {t : Token} (hc : c.closing = false)
    (hopen : c = .opening → isIdentifier t = false) (ht : isDivider t = false)
    (hc' : c'.closing = false) (hopen' : c' ≠ .opening) : Raises c t c' := by
  refine ⟨hopen', ?_⟩
  rw [hc, hc', ht]
  by_cases h : c = .opening
  · simp [hopen h]
  · simp [h]

theorem raises_of_definition {c : Control} {s next : State} {t : Token}
    (h : s.definition t = some next) (hc : c.closing = false) : Raises c t next.control := by
  cases t with
  | divider tail =>
    cases h
    exact ⟨by simp, by rw [hc]; rfl⟩
  | literal body =>
    cases h
    exact raises_of_not_closing hc (fun _ ↦ rfl) rfl rfl (by simp)
  | keyword k =>
    cases k <;> cases h <;> exact raises_of_not_closing hc (fun _ ↦ rfl) rfl rfl (by simp)
  | _ => cases h

theorem raises_of_tokenName {c : Control} {s next : State} {d : Declaration} {names : List String}
    {t : Token} (h : s.tokenName d names t = some next) (hc : c.closing = false)
    (hopen : c ≠ .opening) : Raises c t next.control := by
  cases t with
  | identifier name =>
    cases h
    exact raises_of_not_closing hc (absurd · hopen) rfl rfl (by simp)
  | quoted text =>
    cases h
    exact raises_of_not_closing hc (absurd · hopen) rfl rfl (by simp)
  | _ => cases h

theorem raises_of_sign {c : Control} {p : Punctuation} {t : Token} {s next : State}
    (h : State.sign p t s = some next) (hc : c.closing = false) (hopen : c ≠ .opening)
    (hs : s.control.closing = false) (hopen' : s.control ≠ .opening) :
    Raises c t next.control := by
  obtain ⟨rfl, rfl⟩ := sign_eq_some h
  exact raises_of_not_closing hc (absurd · hopen) rfl hs hopen'

theorem raises_of_identifier {c : Control} {t : Token} {f : String → State} {next : State}
    (h : State.identifier t f = some next) (hc : c.closing = false) (hopen : c ≠ .opening)
    (hf : ∀ name, (f name).control.closing = false ∧ (f name).control ≠ .opening) :
    Raises c t next.control := by
  obtain ⟨name, rfl, rfl⟩ := identifier_eq_some h
  exact raises_of_not_closing hc (absurd · hopen) rfl (hf name).1 (hf name).2

theorem raises_opening {s next : State} {t : Token} (h : s.opening t = some next) :
    Raises .opening t next.control := by
  cases t with
  | identifier name =>
    cases h
    exact ⟨by simp, rfl⟩
  | _ => exact raises_of_definition (s := s) h rfl

theorem raises_tokenNames {s next : State} {d : Declaration} {names : List String}
    {numbered : Bool} {t : Token} (h : s.tokenNames d names numbered t = some next) :
    Raises (.tokenNames d names numbered) t next.control := by
  unfold State.tokenNames at h
  split at h
  · split at h
    · exact raises_of_definition h rfl
    · cases h
      exact raises_of_not_closing rfl (by simp) rfl rfl (by simp)
  · cases h
    exact raises_of_not_closing rfl (by simp) rfl rfl (by simp)
  · cases h
    exact raises_of_not_closing rfl (by simp) rfl rfl (by simp)
  · cases h
    exact raises_of_not_closing rfl (by simp) rfl rfl (by simp)
  · cases h
    exact raises_of_not_closing rfl (by simp) rfl rfl (by simp)
  · exact raises_of_definition h rfl

theorem raises_symbolNames {s next : State} {comma : Bool} {t : Token}
    (h : s.symbolNames comma t = some next) : Raises (.symbolNames comma) t next.control := by
  unfold State.symbolNames at h
  split at h
  · cases h
    exact raises_of_not_closing rfl (by simp) rfl rfl (by simp)
  · cases h
    exact raises_of_not_closing rfl (by simp) rfl rfl (by simp)
  · split at h
    · exact raises_of_definition h rfl
    · cases h
      exact raises_of_not_closing rfl (by simp) rfl rfl (by simp)
  · exact raises_of_definition h rfl

theorem closing_afterSymbol (d : Draft) (kinds : List FamilyKind) (symbol : String) :
    (afterSymbol d kinds symbol).closing = true := by
  cases kinds <;> rfl

theorem closing_part {s next : State} {d : Draft} {lx : Lexeme} (h : s.part d lx = some next) :
    next.control.closing = true := by
  unfold State.part at h
  split at h
  case h_7 =>
    obtain ⟨kind, -, rfl⟩ := Option.map_eq_some_iff.1 h
    rfl
  all_goals cases h; rfl

theorem closing_wrapped {s next : State} {d : Draft} {kinds : List FamilyKind} {t : Token}
    (h : s.wrapped d kinds t = some next) : next.control.closing = true := by
  unfold State.wrapped at h
  split at h
  · cases h
    rw [control_reference]
    exact closing_afterSymbol d kinds _
  · obtain ⟨kind, -, rfl⟩ := Option.map_eq_some_iff.1 h
    rfl

theorem closing_unwrap {s next : State} {d : Draft} {kind : FamilyKind} {outer : List FamilyKind}
    {symbol : String} {t : Token} (h : s.unwrap d kind outer symbol t = some next) :
    next.control.closing = true := by
  unfold State.unwrap at h
  split at h
  · cases h
    rw [control_reference]
    exact closing_afterSymbol d outer _
  · cases h

/-- Every step raises the flag exactly where the rule section begins. -/
theorem raises_step {s next : State} {lx : Lexeme} (h : s.step lx = some next) :
    Raises s.control lx.token next.control := by
  obtain ⟨control, g, firstRule, events⟩ := s
  obtain ⟨t, pos⟩ := lx
  cases control with
  | opening => exact raises_opening h
  | definitions => exact raises_of_definition h rfl
  | startSymbol => exact raises_of_identifier h rfl (by simp) fun _ ↦ ⟨rfl, by simp⟩
  | declaration d =>
    simp only [step, State.declaration] at h
    split at h
    · next ht =>
      cases h
      exact raises_of_not_closing rfl (by simp) (by rw [ht]; rfl) rfl (by simp)
    · exact raises_of_tokenName h rfl (by simp)
  | declarationTag d => exact raises_of_identifier h rfl (by simp) fun _ ↦ ⟨rfl, by simp⟩
  | declarationTagEnd d => exact raises_of_sign h rfl (by simp) rfl (by simp)
  | tokenName d names => exact raises_of_tokenName h rfl (by simp)
  | tokenNames d names numbered => exact raises_tokenNames h
  | typeKeyword => exact raises_of_sign h rfl (by simp) rfl (by simp)
  | typeTag => exact raises_of_identifier h rfl (by simp) fun _ ↦ ⟨rfl, by simp⟩
  | typeTagEnd => exact raises_of_sign h rfl (by simp) rfl (by simp)
  | symbolName => exact raises_of_identifier h rfl (by simp) fun _ ↦ ⟨rfl, by simp⟩
  | symbolNames comma => exact raises_symbolNames h
  | unionKeyword =>
    cases t with
    | code text =>
      cases h
      exact raises_of_not_closing rfl (by simp) rfl rfl (by simp)
    | _ => cases h
  | unionBlock =>
    simp only [step, State.unionBlock] at h
    split at h
    · next ht =>
      cases h
      exact raises_of_not_closing rfl (by simp) (by rw [ht]; rfl) rfl (by simp)
    · exact raises_of_definition h rfl
  | rules =>
    cases t with
    | identifier name =>
      cases h
      exact raises_of_closing rfl rfl _
    | divider tail =>
      cases h
      exact raises_of_closing rfl rfl _
    | _ => cases h
  | ruleName lhs =>
    obtain ⟨rfl, rfl⟩ := sign_eq_some h
    exact raises_of_closing rfl rfl _
  | parts d => exact raises_of_closing rfl (closing_part h) _
  | wrapped d kinds => exact raises_of_closing rfl (closing_wrapped h) _
  | unwrapping d kind outer symbol => exact raises_of_closing rfl (closing_unwrap h) _
  | finished => cases h

/-! ## Control states and items -/

/-- The flag of a state is the one that the items so far call for. -/
structure InStep (s : State) (seen : List Item) : Prop where
  closing : s.control.closing = ruleSchedule seen
  opening : s.control = .opening ↔ seen = []

theorem closingAfterDivider_append_lexeme (seen : List Item) (lx : Lexeme) :
    closingAfterDivider (seen ++ [.lexeme lx]) =
      (closingAfterDivider seen || isDivider lx.token) := by
  obtain ⟨t, pos⟩ := lx
  unfold closingAfterDivider
  rw [List.any_append]
  cases t <;> simp [isDivider]

theorem startsWithName_append_lexeme (seen : List Item) (lx : Lexeme) :
    startsWithName (seen ++ [.lexeme lx]) =
      (startsWithName seen || (decide (seen = []) && isIdentifier lx.token)) := by
  cases seen with
  | nil =>
    obtain ⟨t, pos⟩ := lx
    cases t <;> rfl
  | cons item seen => simp [startsWithName]

theorem InStep.step {s next : State} {seen : List Item} {lx : Lexeme} (h : InStep s seen)
    (hstep : s.step lx = some next) : InStep next (seen ++ [.lexeme lx]) := by
  obtain ⟨hopen, hclosing⟩ := raises_step hstep
  refine ⟨?_, by simp [hopen]⟩
  have hdecide : decide (s.control = .opening) = decide (seen = []) := decide_eq_decide.2 h.opening
  rw [hclosing, h.closing, hdecide]
  unfold ruleSchedule
  rw [startsWithName_append_lexeme, closingAfterDivider_append_lexeme]
  ac_rfl

end Grammar

end ParserGenerator
