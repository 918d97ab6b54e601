import ParserGenerator.Proofs.Derivation.Basic

/-!
# Reading tokens

The grammar that the reader builds depends on the tokens of a file alone: `State.core` forgets where
actions stand and what has been reported, and `State.core_step` says that one step commutes with
forgetting. A run over lexemes can therefore be studied as a run over tokens.
-/

namespace ParserGenerator

/-! ## Forgetting lines -/

/-- A part without the line of its action. -/
def Part.dropLine : Part → Part
  | .symbol name => .symbol name
  | .action text _ => .action text 0

@[simp] theorem Part.dropLine_dropLine (p : Part) : p.dropLine.dropLine = p.dropLine := by
  cases p <;> rfl

namespace Alternative

@[simp] theorem symbols_map_dropLine (alt : Alternative) :
    symbols (alt.map Part.dropLine) = alt.symbols := by
  induction alt with
  | nil => rfl
  | cons p rest ih => cases p <;> simp_all [symbols, Part.dropLine]

@[simp] theorem code_map_dropLine (alt : Alternative) :
    code (alt.map Part.dropLine) = alt.code := by
  unfold code
  rw [List.getLast?_map]
  cases h : alt.getLast? with
  | none => rfl
  | some p => cases p <;> rfl

@[simp] theorem rule_map_dropLine (lhs name : String) (alt : Alternative) :
    rule lhs name (alt.map Part.dropLine) = alt.rule lhs name := by
  simp [rule]

end Alternative

namespace Grammar

theorem addRule_map_dropLine (g : Grammar) (lhs : String) (alts : List Alternative) :
    g.addRule lhs (alts.map (·.map Part.dropLine)) = g.addRule lhs alts := by
  unfold addRule
  rw [List.length_map, List.zip_map_right, List.map_map]
  congr 2
  apply List.map_congr_left
  intro entry _
  simp

namespace Draft

def dropLines (d : Draft) : Draft :=
  { d with
    finished := d.finished.map (·.map Part.dropLine)
    current := d.current.map Part.dropLine }

@[simp] theorem lhs_dropLines (d : Draft) : d.dropLines.lhs = d.lhs := rfl

theorem alternatives_dropLines (d : Draft) :
    d.dropLines.alternatives = d.alternatives.map (·.map Part.dropLine) := by
  simp [alternatives, dropLines]

@[simp] theorem dropLines_dropLines (d : Draft) : d.dropLines.dropLines = d.dropLines := by
  simp [dropLines, Function.comp_def]

@[simp] theorem dropLines_nextAlternative (d : Draft) :
    d.nextAlternative.dropLines = d.dropLines.nextAlternative := by
  simp [nextAlternative, dropLines]

@[simp] theorem dropLines_add (d : Draft) (part : Part) :
    (d.add part).dropLines = d.dropLines.add part.dropLine := by
  simp [add, dropLines]

end Draft

def Control.dropLines : Control → Control
  | .parts d => .parts d.dropLines
  | .wrapped d kinds => .wrapped d.dropLines kinds
  | .unwrapping d kind outer symbol => .unwrapping d.dropLines kind outer symbol
  | c => c

namespace State

/-- What matters for the grammar: neither the lines of actions nor the reports. -/
def core (s : State) : State := { s with control := s.control.dropLines, events := [] }

/-- One step on a token, wherever it stands. -/
def stepToken (s : State) (t : Token) : Option State := (s.step ⟨t, .start⟩).map core

def run (s : State) (ts : List Token) : Option State := ts.foldlM stepToken s

theorem core_definition (s : State) (t : Token) :
    (s.core.definition t).map core = (s.definition t).map core := by
  cases t with
  | keyword k => cases k <;> rfl
  | _ => rfl

theorem core_declare (s : State) (d : Declaration) (names : List String) :
    s.core.declare d names = (s.declare d names).core := by
  cases d <;> rfl

theorem core_reference (s : State) (d : Draft) (kinds : List FamilyKind) (symbol : String) :
    (s.core.reference d.dropLines kinds symbol).core = (s.reference d kinds symbol).core := by
  cases kinds <;> simp [reference, goto, core, Control.dropLines, Part.dropLine]

theorem core_endRule (s : State) (d : Draft) :
    (s.core.endRule d.dropLines).core = (s.endRule d).core := by
  simp [endRule, core, Control.dropLines, Draft.alternatives_dropLines, addRule_map_dropLine]

theorem core_tokenNames (s : State) (d : Declaration) (names : List String) (numbered : Bool)
    (t : Token) :
    (s.core.tokenNames d names numbered t).map core =
      (s.tokenNames d names numbered t).map core := by
  have hend : ((s.core.declare d names).definition t).map core =
      ((s.declare d names).definition t).map core := by
    rw [core_declare, core_definition]
  cases t with
  | number n =>
    cases numbered with
    | true => exact hend
    | false => rfl
  | punctuation p =>
    cases p with
    | semicolon => cases d <;> rfl
    | comma => rfl
    | _ => exact hend
  | identifier name => rfl
  | quoted name => rfl
  | _ => exact hend

theorem core_part (s : State) (d : Draft) (lx : Lexeme) :
    (s.core.part d.dropLines ⟨lx.token, .start⟩).map core = (s.part d lx).map core := by
  obtain ⟨t, pos⟩ := lx
  cases t with
  | punctuation p =>
    cases p with
    | semicolon => exact congrArg some (core_endRule s d)
    | _ => simp [part, goto, core, Control.dropLines, opener?]
  | keyword k => cases k <;> simp [part, goto, core, Control.dropLines, opener?]
  | _ => simp [part, goto, core, Control.dropLines, opener?, Part.dropLine]

theorem core_symbolNames (s : State) (comma : Bool) (t : Token) :
    (s.core.symbolNames comma t).map core = (s.symbolNames comma t).map core := by
  have hend := core_definition s t
  cases t with
  | punctuation p =>
    cases p with
    | comma => cases comma <;> rfl
    | _ => rfl
  | identifier name => rfl
  | _ => exact hend

theorem core_sign (p : Punctuation) (t : Token) {a b : State} (h : a.core = b.core) :
    (sign p t a).map core = (sign p t b).map core := by
  unfold sign
  split
  · exact congrArg some h
  · rfl

theorem core_identifier (t : Token) {f g : String → State}
    (h : ∀ name, (f name).core = (g name).core) :
    (identifier t f).map core = (identifier t g).map core := by
  cases t with
  | identifier name => exact congrArg some (h name)
  | _ => rfl

theorem core_tokenName (s : State) (d : Declaration) (names : List String) (t : Token) :
    (s.core.tokenName d names t).map core = (s.tokenName d names t).map core := by
  cases t <;> rfl

theorem core_wrapped (s : State) (d : Draft) (kinds : List FamilyKind) (t : Token) :
    (s.core.wrapped d.dropLines kinds t).map core = (s.wrapped d kinds t).map core := by
  cases t with
  | identifier name => exact congrArg some (core_reference s d kinds name)
  | punctuation p => cases p <;> simp [wrapped, opener?, goto, core, Control.dropLines]
  | _ => rfl

theorem core_unwrap (s : State) (d : Draft) (kind : FamilyKind) (outer : List FamilyKind)
    (symbol : String) (t : Token) :
    (s.core.unwrap d.dropLines kind outer symbol t).map core =
      (s.unwrap d kind outer symbol t).map core := by
  unfold unwrap
  split
  · apply congrArg some
    cases outer <;> simp [reference, goto, core, Control.dropLines, Part.dropLine]
  · rfl

theorem core_opening (s : State) (t : Token) :
    (s.core.opening t).map core = (s.opening t).map core := by
  cases t with
  | identifier name => rfl
  | keyword k => exact core_definition s (.keyword k)
  | _ => rfl

theorem core_declaration (s : State) (d : Declaration) (t : Token) :
    (s.core.declaration d t).map core = (s.declaration d t).map core := by
  unfold declaration
  split
  · rfl
  · exact core_tokenName s d [] t

theorem core_unionBlock (s : State) (t : Token) :
    (s.core.unionBlock t).map core = (s.unionBlock t).map core := by
  unfold unionBlock
  split
  · rfl
  · exact core_definition s t

/-- One step commutes with forgetting. -/
theorem core_step (s : State) (lx : Lexeme) : (s.step lx).map core = s.core.stepToken lx.token := by
  obtain ⟨control, g, firstRule, events⟩ := s
  obtain ⟨t, pos⟩ := lx
  symm
  cases control with
  | opening => exact core_opening _ t
  | definitions => exact core_definition _ t
  | startSymbol => exact core_identifier t fun _ ↦ rfl
  | declaration d => exact core_declaration _ d t
  | declarationTag d => exact core_identifier t fun _ ↦ rfl
  | declarationTagEnd d => exact core_sign .greater t rfl
  | tokenName d names => exact core_tokenName _ d names t
  | tokenNames d names numbered => exact core_tokenNames _ d names numbered t
  | typeKeyword => exact core_sign .less t rfl
  | typeTag => exact core_identifier t fun _ ↦ rfl
  | typeTagEnd => exact core_sign .greater t rfl
  | symbolName => exact core_identifier t fun _ ↦ rfl
  | symbolNames comma => exact core_symbolNames _ comma t
  | unionKeyword => cases t <;> rfl
  | unionBlock => exact core_unionBlock _ t
  | rules => cases t <;> rfl
  | ruleName lhs => exact core_sign .colon t rfl
  | parts d => exact core_part _ d ⟨t, pos⟩
  | wrapped d kinds => exact core_wrapped _ d kinds t
  | unwrapping d kind outer symbol => exact core_unwrap _ d kind outer symbol t
  | finished => rfl

end State

end Grammar

end ParserGenerator
