import ParserGenerator.Compile
import ParserGenerator.Proofs.Module.Tables
import ParserGenerator.Proofs.Offsets.Scanner
import ParserGenerator.Proofs.Offsets.Templates

/-!
# Compilation at byte offsets

A grammar file is compiled with all texts cut at byte offsets: by the lexer, for the bodies of
actions, for the symbols of right-hand sides, for outdented code and for templates. Every cut is at
the start of a character and no difference of offsets is negative, so there is always an answer, and
it is that of `compile`.
-/

namespace ParserGenerator.Offsets

open Lexer Text

/-! ## Reading -/

/-- What finding an item reports. -/
def Found.events (found : Found) : List Event :=
  found.faults.map .illegalCharacter ++
    match found.item? with
    | some (.lexeme lx) => [.lexeme lx]
    | _ => []

namespace Grammar

open ParserGenerator.Grammar

/-- The body of the last part of an alternative if that is an action. -/
def code? (alt : Alternative) : Option String :=
  match alt.getLast? with
  | some (.action text _) => (Action.body? text.toList).map String.ofList
  | _ => some ""

def rule? (lhs name : String) (alt : Alternative) : Option Rule := do
  let code ← code? alt
  some { name, production := lhs ++ " : " ++ joinWith " " alt.symbols, code }

def addRule? (g : Grammar) (lhs : String) (alts : List Alternative) : Option Grammar := do
  let rules ← ((Alternative.names lhs alts.length).zip alts).mapM fun (name, alt) ↦
    rule? lhs name alt
  some { g with rules := g.rules ++ rules }

/-- A rule has ended. -/
def endRule? (s : State) (d : Draft) : Option State := do
  let grammar ← addRule? s.grammar d.lhs d.alternatives
  some
    { control := .rules
      grammar
      firstRule := s.firstRule <|> some d.lhs
      events := s.events ++ addRuleEvents d.lhs d.alternatives }

/-- The state after one lexeme, if it may stand there. Only at the end of a rule texts are cut. -/
def step? (s : State) (lx : Lexeme) : Option (Option State) :=
  match s.control, lx.token with
  | .parts d, .punctuation .semicolon => (endRule? s d).map some
  | _, _ => some (s.step lx)

end Grammar

/-- Reads on from where the lexer stands. -/
def Scanner.read? (overrun : Nat → Nat) (source : List Char) (scanner : Scanner)
    (s : Grammar.State) (last : Position) (faults : List Fault) : Option Grammar.Report := do
  let found ← scanner.next? overrun source s.control.closing
  let events := s.events ++ found.events
  match found.item? with
  | none =>
    if s.control = .finished then
      let done := { s with events }.finish
      some ⟨.ok ⟨done.grammar, faults ++ found.faults⟩, done.events⟩
    else some ⟨.error (.endOfInput s.control.expects last), events⟩
  | some (.failure e) => some ⟨.error (.lexical e), events⟩
  | some (.lexeme lx) =>
    match ← Grammar.step? { s with events } lx with
    | none => some ⟨.error (.unexpected lx s.control.expects), events⟩
    | some next => found.scanner |>.read? overrun source next lx.pos (faults ++ found.faults)
partial_fixpoint

namespace Grammar

open ParserGenerator.Grammar

def parse? (overrun : Nat → Nat) (source : String) : Option Report :=
  Scanner.read? overrun source.toList .start {} .start []

theorem rule?_eq (lhs name : String) (alt : Alternative) :
    rule? lhs name alt = some (alt.rule lhs name) := by
  have hcode : code? alt = some alt.code := by
    rw [code?, Alternative.code]
    cases alt.getLast? with
    | none => rfl
    | some last =>
      cases last with
      | symbol name => rfl
      | action text line =>
        dsimp only
        rw [Action.body?_eq]
        rfl
  rw [rule?, hcode]
  rfl

theorem endRule?_eq (s : State) (d : Draft) : endRule? s d = some (s.endRule d) := by
  have hrules (l : List (String × Alternative)) :
      l.mapM (fun (name, alt) ↦ rule? d.lhs name alt) =
        some (l.map fun (name, alt) ↦ alt.rule d.lhs name) :=
    mapM_eq_some fun entry _ ↦ rule?_eq d.lhs entry.1 entry.2
  rw [endRule?, addRule?, hrules]
  rfl

theorem step?_eq (s : State) (lx : Lexeme) : step? s lx = some (s.step lx) := by
  fun_cases step? s lx with
  | case1 d htoken hcontrol =>
    rw [endRule?_eq, State.step, hcontrol]
    simp only [State.part, htoken]
    rfl
  | case2 => rfl

section Stands

variable {overrun : Nat → Nat} {passed : List Char} {mark : Position} {scanner : Scanner}
  {cur : Cursor}

/-- A lexer that stands where a cursor stands finds what a pull finds, and stands where the cursor
stands after the pull. -/
theorem read?_pull (h : Scanner.Stands passed mark scanner)
    (hpos : Position.start.advance passed = cur.pos) (s : State) (last : Position)
    (faults : List Fault) :
    ∃ passed' mark' scanner', Scanner.Stands passed' mark' scanner' ∧
      Position.start.advance passed' = (cur.pull s.control.closing).cursor.pos ∧
      passed' ++ (cur.pull s.control.closing).cursor.rest = passed ++ cur.rest ∧
      Scanner.read? overrun (passed ++ cur.rest) scanner s last faults =
        let p := cur.pull s.control.closing
        let events := s.events ++ p.events
        match p.item? with
        | none =>
          if s.control = .finished then
            let done := { s with events }.finish
            some ⟨.ok ⟨done.grammar, faults ++ p.faults⟩, done.events⟩
          else some ⟨.error (.endOfInput s.control.expects last), events⟩
        | some (.failure e) => some ⟨.error (.lexical e), events⟩
        | some (.lexeme lx) =>
          match { s with events }.step lx with
          | none => some ⟨.error (.unexpected lx s.control.expects), events⟩
          | some next =>
            Scanner.read? overrun (passed ++ cur.rest) scanner' next lx.pos
              (faults ++ p.faults) := by
  obtain ⟨next, passed', hnext, happ, hpos', hstands⟩ :=
    @Scanner.next?_eq overrun s.control.closing passed cur.rest _ _ _ h hpos
  refine ⟨passed', _, next, hstands, hpos', happ, ?_⟩
  rw [Scanner.read?, hnext, Option.bind_eq_bind, Option.bind_some]
  have hevents : Found.events ⟨(pullFrom s.control.closing cur.rest cur.pos).faults,
      (pullFrom s.control.closing cur.rest cur.pos).item?, next⟩ =
        (cur.pull s.control.closing).events := rfl
  dsimp only
  rw [hevents, ← Cursor.pull]
  cases (cur.pull s.control.closing).item? with
  | none => rfl
  | some item =>
    cases item with
    | failure e => rfl
    | lexeme lx =>
      dsimp only
      rw [step?_eq]
      rfl

/-- Reading with a lexer that stands where a cursor stands is reading from the cursor. -/
theorem read?_eq (h : Scanner.Stands passed mark scanner)
    (hpos : Position.start.advance passed = cur.pos) (s : State) (last : Position)
    (faults : List Fault) :
    Scanner.read? overrun (passed ++ cur.rest) scanner s last faults =
      some (readFrom cur s last faults) := by
  revert passed mark scanner
  fun_induction readFrom cur s last faults with
  | case1 cur s last faults hitem p =>
    rename_i events hfinished done
    intro passed mark scanner h hpos
    obtain ⟨passed', mark', scanner', -, -, -, hread⟩ := read?_pull h hpos s last faults
    rw [hread]
    dsimp only
    rw [hitem]
    exact if_pos hfinished
  | case2 cur s last faults hitem p =>
    rename_i events hfinished
    intro passed mark scanner h hpos
    obtain ⟨passed', mark', scanner', -, -, -, hread⟩ := read?_pull h hpos s last faults
    rw [hread]
    dsimp only
    rw [hitem]
    exact if_neg hfinished
  | case3 cur s last faults e hitem =>
    intro passed mark scanner h hpos
    obtain ⟨passed', mark', scanner', -, -, -, hread⟩ := read?_pull h hpos s last faults
    rw [hread]
    dsimp only
    rw [hitem]
  | case4 cur s last faults lx hitem p =>
    rename_i events hstep
    intro passed mark scanner h hpos
    obtain ⟨passed', mark', scanner', -, -, -, hread⟩ := read?_pull h hpos s last faults
    rw [hread]
    dsimp only
    rw [hitem]
    dsimp only
    rw [hstep]
  | case5 cur s last faults lx hitem p events next =>
    rename_i hstep ih
    intro passed mark scanner h hpos
    obtain ⟨passed', mark', scanner', hstands, hpos', happ, hread⟩ :=
      read?_pull h hpos s last faults
    rw [hread]
    dsimp only
    rw [hitem]
    dsimp only
    rw [hstep, ← happ]
    exact ih hstands hpos'

end Stands

theorem parse?_eq (overrun : Nat → Nat) (source : String) :
    parse? overrun source = some (parse source) :=
  @read?_eq overrun [] .start .start (.ofString source) Scanner.stands_start rfl {} .start []

end Grammar

/-! ## Modules -/

namespace Module

open ParserGenerator.Module

def firstUnregistered? (g : Grammar) : Option (Option GenerateError) :=
  g.rules.findSomeM? fun rule ↦ do
    let symbols ← Rule.symbols? rule
    some (symbols.findSome? fun symbol ↦
      if g.isTerminal symbol then none else g.unregistered? rule.name symbol)

/-- The first problem of a grammar, if there is one. -/
def problem? (g : Grammar) : Option (Option GenerateError) :=
  if g.start = "" then some (some .missingStart)
  else
    match Grammar.firstRepeated [] (g.rules.map Rule.name), g.firstCollision with
    | some name, _ => some (some (.duplicateHandler name))
    | none, some e => some (some e)
    | none, none => firstUnregistered? g

def handlerBlock? (o : Options) (e : Entry) : Option String := do
  let body ← outdent? o.tabSize e.code
  some (o.indent 1 ++ "/// " ++ e.production ++ "\n" ++
    o.indent 1 ++ "fn " ++ e.handler ++ "(p: &mut Reduction<Value>) \x7b\n" ++
    concat (body.map (bodyLine (o.indent 2))) ++
    o.indent 1 ++ "\x7d\n")

/-- What is written for a placeholder. -/
def content? (g : Grammar) (o : Options) : Slot → Option String
  | .productions => do
    let blocks ← (entries g).mapM (handlerBlock? o)
    some (joinWith "\n" blocks)
  | slot => some (slot.contentWith isPrintable g o)

/-- The pieces of the template. -/
def pieces? (o : Options) : Option (Except Template.TemplateError (List Template.Piece)) :=
  Template.parse? (o.template.getD ParserGenerator.Template.standard)

def generate? (g : Grammar) (o : Options) : Option (Except GenerateError String) := do
  match ← pieces? o with
  | .error e => some (.error (.template e))
  | .ok pieces =>
    match Template.check placeholders pieces with
    | .error e => some (.error (.template e))
    | .ok () =>
      match ← problem? g with
      | some e => some (.error e)
      | none =>
        let text ← Template.render? (fun name ↦ (Slot.ofName? name).bind (content? g o)) pieces
        some (.ok text)

theorem problem?_eq (g : Grammar) : problem? g = some g.problem? := by
  have hunregistered : firstUnregistered? g = some g.firstUnregistered := by
    apply findSomeM?_eq_some
    intro rule _
    rw [Rule.symbols?_eq]
    rfl
  rw [problem?, Grammar.problem?]
  split
  · rfl
  · cases Grammar.firstRepeated [] (g.rules.map Rule.name) with
    | some name => rfl
    | none =>
      cases g.firstCollision with
      | some e => rfl
      | none => exact hunregistered

theorem content?_eq (g : Grammar) (o : Options) (slot : Slot) :
    content? g o slot = some (slot.contentWith isPrintable g o) := by
  have hblock (e : Entry) : handlerBlock? o e = some (handlerBlock o e) := by
    rw [handlerBlock?, outdent?_eq]
    rfl
  fun_cases content? g o slot with
  | case1 =>
    rw [mapM_eq_some fun e _ ↦ hblock e]
    rfl
  | case2 => rfl

/-- Every name that a template may use has a value. -/
theorem isSome_value? (g : Grammar) (o : Options) :
    ∀ name ∈ placeholders, (value? g o name).isSome = true := by
  intro name hname
  obtain ⟨slot, -, rfl⟩ := List.mem_map.1 hname
  rw [value?, valueWith?, ofName?_name]
  rfl

theorem generate?_eq (g : Grammar) (o : Options) : generate? g o = some (generate g o) := by
  have hpieces : pieces? o = some o.pieces := Template.parse?_eq _
  have hvalue : (fun name ↦ (Slot.ofName? name).bind (content? g o)) = value? g o := by
    funext name
    rw [value?, valueWith?]
    cases Slot.ofName? name with
    | none => rfl
    | some slot => exact content?_eq g o slot
  rw [generate?, hpieces, Option.bind_eq_bind, Option.bind_some, generate]
  cases o.pieces with
  | error e => rfl
  | ok pieces =>
    dsimp only
    cases hcheck : ParserGenerator.Template.check placeholders pieces with
    | error e => rfl
    | ok done =>
      dsimp only
      rw [problem?_eq, Option.bind_eq_bind, Option.bind_some]
      cases g.problem? with
      | some e => rfl
      | none =>
        dsimp only
        rw [hvalue, Template.render?_eq (isSome_value? g o) hcheck]
        rfl

end Module

/-! ## Compilation -/

/-- The module that a grammar file stands for. -/
def compile? (overrun : Nat → Nat) (source : String) (o : Options) :
    Option (Except CompileError String) := do
  let report ← Grammar.parse? overrun source
  match report.result with
  | .error e => some (.error (.syntactic e))
  | .ok parsed =>
    if o.strict && !parsed.faults.isEmpty then some (.error (.faults parsed.faults))
    else
      match ← Module.generate? (parsed.grammar.request o.families) o with
      | .error e => some (.error (.generate e))
      | .ok text => some (.ok text)

/-- Compiling always has an answer: whatever the source, the template, the families asked for and
the tab size are, every text is cut at the start of a character, no difference of offsets is
negative, and every placeholder has a value. -/
theorem compile?_eq_some (overrun : Nat → Nat) (source : String) (o : Options) :
    compile? overrun source o = some (compile source o) := by
  rw [compile?, Grammar.parse?_eq, Option.bind_eq_bind, Option.bind_some, compile]
  cases (ParserGenerator.Grammar.parse source).result with
  | error e => rfl
  | ok parsed =>
    dsimp only
    split
    · rfl
    · rw [Module.generate?_eq, Option.bind_eq_bind, Option.bind_some]
      cases ParserGenerator.Module.generate (parsed.grammar.request o.families) o <;> rfl

end ParserGenerator.Offsets
