import ParserGenerator.Proofs.Derivation.Reading

/-!
# Every derivation is read

The reader accepts the tokens of every file, and the grammar it builds is the one that the file
denotes. Each nonterminal has a lemma of one shape: reading its tokens and then `rest` is reading
`rest` in the state that the nonterminal leads to.
-/

namespace ParserGenerator.Grammar

open ParserGenerator.Derivation

namespace State

@[simp] theorem run_nil (s : State) : s.run [] = some s := rfl

theorem run_cons (s : State) (t : Token) (ts : List Token) :
    s.run (t :: ts) = (s.stepToken t).bind (run · ts) := rfl

theorem run_cons_of_stepToken {s next : State} {t : Token} (h : s.stepToken t = some next)
    (ts : List Token) : s.run (t :: ts) = next.run ts := by
  rw [run_cons, h, Option.bind_some]

/-- A state without reports. -/
def bare (control : Control) (g : Grammar) (firstRule : Option String) : State :=
  { control, grammar := g, firstRule }

end State

open State

variable {g : Grammar} {firstRule : Option String} {rest : List Token}

/-! ## References and alternatives -/

/-- The part of a draft that an item becomes. -/
def partOf : Element → Part
  | .action text => .action text 0
  | .prec => .symbol Symbols.precMark
  | .quoted text => .symbol text
  | .reference r => .symbol r.symbol

@[simp] theorem dropLine_partOf (e : Element) : (partOf e).dropLine = partOf e := by
  cases e <;> rfl

/-- The draft of a rule whose items have been read. -/
def draftOf (lhs : String) (finished : List (List Element)) (current : List Element) : Draft :=
  ⟨lhs, finished.map (·.map partOf), current.map partOf⟩

@[simp] theorem dropLines_draftOf (lhs : String) (finished : List (List Element))
    (current : List Element) :
    (draftOf lhs finished current).dropLines = draftOf lhs finished current := by
  simp [draftOf, Draft.dropLines, Function.comp_def]

theorem add_draftOf (lhs : String) (finished : List (List Element)) (current : List Element)
    (e : Element) :
    (draftOf lhs finished current).add (partOf e) = draftOf lhs finished (current ++ [e]) := by
  simp [draftOf, Draft.add]

theorem nextAlternative_draftOf (lhs : String) (finished : List (List Element))
    (current : List Element) :
    (draftOf lhs finished current).nextAlternative = draftOf lhs (finished ++ [current]) [] := by
  simp [draftOf, Draft.nextAlternative]

theorem alternatives_draftOf (lhs : String) (finished : List (List Element))
    (current : List Element) :
    (draftOf lhs finished current).alternatives = (finished ++ [current]).map (·.map partOf) := by
  simp [draftOf, Draft.alternatives]

/-- The control state after the symbol of a reference. -/
def afterSymbol (d : Draft) (kinds : List FamilyKind) (symbol : String) : Control :=
  match kinds with
  | [] => .parts (d.add (.symbol symbol))
  | kind :: outer => .unwrapping d kind outer symbol

theorem core_reference_bare (control : Control) {d : Draft} (hd : d.dropLines = d)
    (kinds : List FamilyKind) (symbol : String) :
    ((bare control g firstRule).reference d kinds symbol).core =
      bare (afterSymbol d kinds symbol) g firstRule := by
  cases kinds <;> simp [reference, bare, goto, core, afterSymbol, Control.dropLines, hd,
    Part.dropLine]

theorem stepToken_openSign {d : Draft} (hd : d.dropLines = d) (kinds : List FamilyKind)
    (kind : FamilyKind) :
    (bare (.wrapped d kinds) g firstRule).stepToken (openSign kind) =
      some (bare (.wrapped d (kind :: kinds)) g firstRule) := by
  cases kind <;> simp [stepToken, step, bare, wrapped, openSign, opener?, goto, core,
    Control.dropLines, hd]

theorem stepToken_closeSign {d : Draft} (hd : d.dropLines = d) (kind : FamilyKind)
    (outer : List FamilyKind) (symbol : String) :
    (bare (.unwrapping d kind outer symbol) g firstRule).stepToken (closeSign kind) =
      some (bare (afterSymbol d outer (kind.derived symbol)) (g.wrap kind symbol) firstRule) := by
  have hclose : closeSign kind = closer kind := by cases kind <;> rfl
  cases outer <;> simp [stepToken, step, bare, unwrap, hclose, reference, goto, core, afterSymbol,
    Control.dropLines, hd, Part.dropLine]

theorem request_append (g : Grammar) (a b : List (FamilyKind × String)) :
    g.request (a ++ b) = (g.request a).request b := by
  simp [request]

/-- The innermost shorthand is read first, so its base is registered first. -/
theorem run_reference {d : Draft} (hd : d.dropLines = d) (r : Reference)
    (kinds : List FamilyKind) :
    (bare (.wrapped d kinds) g firstRule).run (r.tokens ++ rest) =
      (bare (afterSymbol d kinds r.symbol) (g.request r.bases) firstRule).run rest := by
  induction r generalizing kinds rest with
  | plain name =>
    apply run_cons_of_stepToken
    exact congrArg some (core_reference_bare _ hd kinds name)
  | wrapped kind inner ih =>
    calc (bare (.wrapped d kinds) g firstRule).run ((Reference.wrapped kind inner).tokens ++ rest)
        = (bare (.wrapped d (kind :: kinds)) g firstRule).run
            (inner.tokens ++ closeSign kind :: rest) := by
          rw [Reference.tokens, List.cons_append, List.cons_append,
            run_cons_of_stepToken (stepToken_openSign hd kinds kind), List.append_assoc]
          rfl
      _ = (bare (.unwrapping d kind kinds inner.symbol) (g.request inner.bases) firstRule).run
            (closeSign kind :: rest) := ih (kind :: kinds)
      _ = (bare (afterSymbol d kinds (kind.derived inner.symbol))
            ((g.request inner.bases).wrap kind inner.symbol) firstRule).run rest :=
          run_cons_of_stepToken (stepToken_closeSign hd kind kinds inner.symbol) rest
      _ = (bare (afterSymbol d kinds (Reference.wrapped kind inner).symbol)
            (g.request (Reference.wrapped kind inner).bases) firstRule).run rest := by
          rw [Reference.bases, request_append, Reference.symbol_wrapped]
          rfl

/-- Inside an alternative a shorthand is entered by its opening sign. -/
theorem stepToken_parts_openSign {d : Draft} (hd : d.dropLines = d) (kind : FamilyKind) :
    (bare (.parts d) g firstRule).stepToken (openSign kind) =
      some (bare (.wrapped d [kind]) g firstRule) := by
  cases kind <;> simp [stepToken, step, bare, part, openSign, opener?, goto, core,
    Control.dropLines, hd]

theorem run_element {d : Draft} (hd : d.dropLines = d) (e : Element) :
    (bare (.parts d) g firstRule).run (e.tokens ++ rest) =
      (bare (.parts (d.add (partOf e))) (g.request e.bases) firstRule).run rest := by
  have hsingle {t : Token} {p : Part}
      (h : (bare (.parts d) g firstRule).stepToken t =
        some ((bare (.parts d) g firstRule).goto (.parts (d.add p))).core) (hp : p.dropLine = p) :
      (bare (.parts d) g firstRule).run (t :: rest) =
        (bare (.parts (d.add p)) g firstRule).run rest := by
    apply run_cons_of_stepToken
    rw [h]
    simp [bare, goto, core, Control.dropLines, hd, hp]
  cases e with
  | action text =>
    apply run_cons_of_stepToken
    simp [stepToken, step, bare, part, goto, core, Control.dropLines, hd, Part.dropLine, partOf,
      Element.bases, request]
  | prec => exact hsingle rfl rfl
  | quoted text => exact hsingle rfl rfl
  | reference r =>
    cases r with
    | plain name => exact hsingle rfl rfl
    | wrapped kind inner =>
      calc (bare (.parts d) g firstRule).run
            ((Element.reference (.wrapped kind inner)).tokens ++ rest)
          = (bare (.wrapped d [kind]) g firstRule).run
              (inner.tokens ++ closeSign kind :: rest) := by
            rw [Element.tokens, Reference.tokens, List.cons_append, List.cons_append,
              run_cons_of_stepToken (stepToken_parts_openSign hd kind), List.append_assoc]
            rfl
        _ = (bare (.unwrapping d kind [] inner.symbol) (g.request inner.bases) firstRule).run
              (closeSign kind :: rest) := run_reference hd inner [kind]
        _ = (bare (.parts (d.add (.symbol (kind.derived inner.symbol))))
              ((g.request inner.bases).wrap kind inner.symbol) firstRule).run rest :=
            run_cons_of_stepToken (stepToken_closeSign hd kind [] inner.symbol) rest
        _ = (bare (.parts (d.add (partOf (.reference (.wrapped kind inner)))))
              (g.request (Element.reference (.wrapped kind inner)).bases) firstRule).run rest := by
            rw [Element.bases, Reference.bases, request_append, partOf, Reference.symbol_wrapped]
            rfl

theorem run_elements (lhs : String) (finished : List (List Element)) (current alt : List Element) :
    (bare (.parts (draftOf lhs finished current)) g firstRule).run
        (alt.flatMap Element.tokens ++ rest) =
      (bare (.parts (draftOf lhs finished (current ++ alt)))
        (g.request (alt.flatMap Element.bases)) firstRule).run rest := by
  induction alt generalizing g current with
  | nil => simp [request]
  | cons e alt ih =>
    calc (bare (.parts (draftOf lhs finished current)) g firstRule).run
          ((e :: alt).flatMap Element.tokens ++ rest)
        = (bare (.parts (draftOf lhs finished (current ++ [e]))) (g.request e.bases) firstRule).run
            (alt.flatMap Element.tokens ++ rest) := by
          rw [List.flatMap_cons, List.append_assoc, run_element (dropLines_draftOf _ _ _),
            add_draftOf]
      _ = (bare (.parts (draftOf lhs finished (current ++ [e] ++ alt)))
            ((g.request e.bases).request (alt.flatMap Element.bases)) firstRule).run rest := ih _
      _ = (bare (.parts (draftOf lhs finished (current ++ e :: alt)))
            (g.request ((e :: alt).flatMap Element.bases)) firstRule).run rest := by
          rw [List.flatMap_cons, request_append, List.append_assoc, List.singleton_append]

theorem run_alternatives (lhs : String) (finished : List (List Element)) (current : List Element)
    (more : List (List Element)) :
    (bare (.parts (draftOf lhs finished current)) g firstRule).run
        (more.flatMap (fun alt ↦ .punctuation .bar :: alt.flatMap Element.tokens) ++
          .punctuation .semicolon :: rest) =
      (bare .rules ((g.request (more.flatMap fun alt ↦ alt.flatMap Element.bases)).addRule lhs
        ((finished ++ current :: more).map (·.map partOf))) (firstRule <|> some lhs)).run rest := by
  induction more generalizing g finished current with
  | nil =>
    apply run_cons_of_stepToken
    apply congrArg some
    simp only [endRule, alternatives_draftOf]
    rfl
  | cons alt more ih =>
    have hbar : (bare (.parts (draftOf lhs finished current)) g firstRule).stepToken
        (.punctuation .bar) =
          some (bare (.parts (draftOf lhs (finished ++ [current]) [])) g firstRule) := by
      apply congrArg some
      simp [bare, goto, core, Control.dropLines, nextAlternative_draftOf]
    rw [List.flatMap_cons, List.append_assoc, List.cons_append, run_cons_of_stepToken hbar,
      run_elements, List.nil_append, ih]
    rw [List.flatMap_cons, request_append, List.append_assoc, List.singleton_append]

/-! ## Rules -/

theorem symbols_map_partOf (alt : List Element) :
    Alternative.symbols (alt.map partOf) = symbolsOf alt := by
  unfold Alternative.symbols symbolsOf
  rw [List.filterMap_map]
  congr 1
  funext e
  cases e <;> rfl

theorem code_map_partOf (alt : List Element) : Alternative.code (alt.map partOf) = codeOf alt := by
  unfold Alternative.code codeOf
  rw [List.getLast?_map]
  cases alt.getLast? with
  | none => rfl
  | some e => cases e <;> rfl

/-- The names of a clause, numbered if there are several alternatives. -/
theorem names_eq_map_nameOf (c : Clause) :
    Alternative.names c.lhs c.alternatives.length =
      (List.range c.alternatives.length).map c.nameOf := by
  unfold Alternative.names Clause.nameOf Clause.alternatives
  cases hmore : c.more with
  | nil => simp
  | cons alt more => simp

theorem addRule_map_partOf (g : Grammar) (c : Clause) :
    g.addRule c.lhs (c.alternatives.map (·.map partOf)) =
      { g with rules := g.rules ++ c.rules } := by
  unfold addRule
  congr 2
  rw [List.length_map, names_eq_map_nameOf, Clause.rules]
  apply List.ext_getElem
  · simp
  · intro i h1 h2
    simp [Alternative.rule, Clause.ruleOf, symbols_map_partOf, code_map_partOf]

/-- What a clause adds to a grammar. -/
def addClause (g : Grammar) (c : Clause) : Grammar :=
  { g.request c.bases with rules := g.rules ++ c.rules }

theorem run_clause (c : Clause) :
    (bare .rules g firstRule).run (c.tokens ++ rest) =
      (bare .rules (g.addClause c) (firstRule <|> some c.lhs)).run rest := by
  have hname : (bare .rules g firstRule).stepToken (.identifier c.lhs) =
      some (bare (.ruleName c.lhs) g firstRule) := rfl
  have hcolon : (bare (.ruleName c.lhs) g firstRule).stepToken (.punctuation .colon) =
      some (bare (.parts (draftOf c.lhs [] [])) g firstRule) := rfl
  have htokens : c.tokens ++ rest = .identifier c.lhs :: .punctuation .colon ::
      (c.first.flatMap Element.tokens ++
        (c.more.flatMap (fun alt ↦ .punctuation .bar :: alt.flatMap Element.tokens) ++
          .punctuation .semicolon :: rest)) := by
    simp [Clause.tokens]
  calc (bare .rules g firstRule).run (c.tokens ++ rest)
      = (bare (.parts (draftOf c.lhs [] [])) g firstRule).run
          (c.first.flatMap Element.tokens ++
            (c.more.flatMap (fun alt ↦ .punctuation .bar :: alt.flatMap Element.tokens) ++
              .punctuation .semicolon :: rest)) := by
        rw [htokens, run_cons_of_stepToken hname, run_cons_of_stepToken hcolon]
    _ = (bare .rules ((g.request c.bases).addRule c.lhs (c.alternatives.map (·.map partOf)))
          (firstRule <|> some c.lhs)).run rest := by
        rw [run_elements, run_alternatives, List.nil_append, List.nil_append, ← request_append]
        rfl
    _ = (bare .rules (g.addClause c) (firstRule <|> some c.lhs)).run rest := by
        rw [addRule_map_partOf]
        rfl

theorem run_clauses (cs : List Clause) :
    (bare .rules g firstRule).run (cs.flatMap Clause.tokens ++ rest) =
      (bare .rules (cs.foldl addClause g)
        (firstRule <|> cs.head?.map Clause.lhs)).run rest := by
  induction cs generalizing g firstRule with
  | nil => simp
  | cons c cs ih =>
    rw [List.flatMap_cons, List.append_assoc, run_clause, ih]
    cases firstRule <;> simp

/-! ## Definitions -/

/-- Records the names of a declaration. -/
def declareNames (g : Grammar) (names : List String) : Declaration → Grammar
  | .tokens => { g with tokens := g.tokens.insertAll names }
  | .precedence assoc => { g with precedence := g.precedence ++ [⟨assoc, names⟩] }

/-- What a definition adds to a grammar. -/
def addDirective (g : Grammar) : Directive → Grammar
  | .literal body => { g with prologue := g.prologue ++ [body] }
  | .start name => { g with start := name }
  | .declaration d _ first more _ => g.declareNames (Directive.listed first more) d
  | .type _ _ _ _ _ | .union _ _ => g

/-- A token that ends a list of names: it starts a definition or closes the section. -/
def endsNames : Token → Bool
  | .divider _ | .literal _ | .keyword _ => true
  | _ => false

theorem stepToken_tokenNames_of_endsNames {t : Token} (ht : endsNames t = true) (d : Declaration)
    (names : List String) (numbered : Bool) :
    (bare (.tokenNames d names numbered) g firstRule).stepToken t =
      (bare .definitions (g.declareNames names d) firstRule).stepToken t := by
  cases t with
  | divider tail => cases d <;> rfl
  | literal body => cases d <;> rfl
  | keyword k => cases d <;> cases k <;> rfl
  | _ => simp [endsNames] at ht

/-- The control states in which a definition may start without anything left to record. -/
def opensDefinition : Control → Bool
  | .opening | .symbolNames _ | .unionBlock => true
  | _ => false

theorem stepToken_of_endsNames {control : Control} {t : Token}
    (hcontrol : opensDefinition control = true) (ht : endsNames t = true) :
    (bare control g firstRule).stepToken t = (bare .definitions g firstRule).stepToken t := by
  cases control with
  | opening | symbolNames | unionBlock =>
    cases t with
    | divider tail => rfl
    | literal body => rfl
    | keyword k => cases k <;> rfl
    | _ => simp [endsNames] at ht
  | _ => simp [opensDefinition] at hcontrol

/-- A text that cannot continue a list of names. -/
def EndsNames (rest : List Token) : Prop := rest.head?.any endsNames = true

theorem run_congr_of_endsNames {s s' : State} (hrest : EndsNames rest)
    (h : ∀ t, endsNames t = true → s.stepToken t = s'.stepToken t) : s.run rest = s'.run rest := by
  cases rest with
  | nil => simp [EndsNames] at hrest
  | cons t ts => rw [run_cons, run_cons, h t (by simpa [EndsNames] using hrest)]

theorem run_tokenId (d : Declaration) (names : List String) (id : TokenId) :
    (bare (.tokenName d names) g firstRule).run (id.tokens ++ rest) =
      (bare (.tokenNames d (names ++ [id.name.text]) id.number.isSome) g firstRule).run rest := by
  obtain ⟨name, number⟩ := id
  cases name <;> cases number <;> rfl

theorem run_nextTokenId (d : Declaration) (names : List String) (numbered : Bool)
    (next : NextTokenId) :
    (bare (.tokenNames d names numbered) g firstRule).run (next.tokens ++ rest) =
      (bare (.tokenNames d (names ++ [next.id.name.text]) next.id.number.isSome) g
        firstRule).run rest := by
  obtain ⟨comma, name, number⟩ := next
  cases comma <;> cases name <;> cases number <;> rfl

theorem run_nextTokenIds (d : Declaration) (names : List String) (numbered : Bool)
    (more : List NextTokenId) :
    ∃ numbered' : Bool,
      (bare (.tokenNames d names numbered) g firstRule).run
          (more.flatMap NextTokenId.tokens ++ rest) =
        (bare (.tokenNames d (names ++ more.map (·.id.name.text)) numbered') g firstRule).run
          rest := by
  induction more generalizing names numbered with
  | nil => exact ⟨numbered, by simp⟩
  | cons next more ih =>
    obtain ⟨numbered', h⟩ := ih (names ++ [next.id.name.text]) next.id.number.isSome
    refine ⟨numbered', ?_⟩
    rw [List.flatMap_cons, List.append_assoc, run_nextTokenId, h]
    simp

theorem run_tokenNames_end (d : Declaration) (names : List String) (numbered semicolon : Bool)
    (hrest : EndsNames rest) :
    (bare (.tokenNames d names numbered) g firstRule).run
        (optionalSign .semicolon semicolon ++ rest) =
      (bare .definitions (g.declareNames names d) firstRule).run rest := by
  cases semicolon with
  | true => cases d <;> rfl
  | false =>
    exact run_congr_of_endsNames hrest fun t ht ↦ stepToken_tokenNames_of_endsNames ht d names _

theorem run_declarationHead (d : Declaration) (tag : Option String) (first : TokenId) :
    (bare .definitions g firstRule).run
        (.keyword (keywordOf d) :: (tag.toList.flatMap tagTokens ++ (first.tokens ++ rest))) =
      (bare (.tokenNames d [first.name.text] first.number.isSome) g firstRule).run rest := by
  have hkeyword : (bare .definitions g firstRule).stepToken (.keyword (keywordOf d)) =
      some (bare (.declaration d) g firstRule) := by
    cases d with
    | tokens => rfl
    | precedence assoc => cases assoc <;> rfl
  rw [run_cons_of_stepToken hkeyword]
  cases tag with
  | none =>
    obtain ⟨name, number⟩ := first
    cases name <;> cases number <;> rfl
  | some tag => exact run_tokenId d [] first

theorem run_nextSymbols (more : List NextSymbol) :
    (bare (.symbolNames false) g firstRule).run (more.flatMap NextSymbol.tokens ++ rest) =
      (bare (.symbolNames false) g firstRule).run rest := by
  induction more with
  | nil => rfl
  | cons next more ih =>
    rw [List.flatMap_cons, List.append_assoc, ← ih]
    obtain ⟨comma, name⟩ := next
    cases comma <;> rfl

theorem run_symbolNames_end (comma semicolon : Bool) (hrest : EndsNames rest) :
    (bare (.symbolNames false) g firstRule).run
        (optionalSign .comma comma ++ (optionalSign .semicolon semicolon ++ rest)) =
      (bare .definitions g firstRule).run rest := by
  have hcomma : (bare (.symbolNames false) g firstRule).run
      (optionalSign .comma comma ++ (optionalSign .semicolon semicolon ++ rest)) =
        (bare (.symbolNames comma) g firstRule).run
          (optionalSign .semicolon semicolon ++ rest) := by
    cases comma <;> rfl
  rw [hcomma]
  cases semicolon with
  | true => rfl
  | false =>
    exact run_congr_of_endsNames hrest fun t ht ↦ stepToken_of_endsNames rfl ht

theorem run_directive (dir : Directive) (hrest : EndsNames rest) :
    (bare .definitions g firstRule).run (dir.tokens ++ rest) =
      (bare .definitions (g.addDirective dir) firstRule).run rest := by
  cases dir with
  | literal body => rfl
  | start name => rfl
  | declaration d tag first more semicolon =>
    obtain ⟨numbered, h⟩ := @run_nextTokenIds g firstRule
      (optionalSign .semicolon semicolon ++ rest) d [first.name.text] first.number.isSome more
    simp only [Directive.tokens, List.cons_append, List.append_assoc]
    rw [run_declarationHead, h, run_tokenNames_end d _ numbered semicolon hrest]
    rfl
  | type tag first more comma semicolon =>
    have hhead (ts : List Token) : (bare .definitions g firstRule).run
        (.keyword .type :: (tagTokens tag ++ .identifier first :: ts)) =
          (bare (.symbolNames false) g firstRule).run ts := rfl
    simp only [Directive.tokens, List.cons_append, List.append_assoc, List.nil_append]
    rw [hhead, run_nextSymbols, run_symbolNames_end comma semicolon hrest]
    rfl
  | union code semicolon =>
    cases semicolon with
    | true => rfl
    | false =>
      exact run_congr_of_endsNames hrest fun t ht ↦ stepToken_of_endsNames rfl ht

theorem endsNames_directive (dir : Directive) (rest : List Token) :
    EndsNames (dir.tokens ++ rest) := by
  cases dir <;> rfl

theorem run_directives (dirs : List Directive) (divider : Option String) :
    (bare .definitions g firstRule).run
        (dirs.flatMap Directive.tokens ++ .divider divider :: rest) =
      (bare .rules (dirs.foldl addDirective g) firstRule).run rest := by
  induction dirs generalizing g with
  | nil => rfl
  | cons dir dirs ih =>
    have hrest : EndsNames (dirs.flatMap Directive.tokens ++ .divider divider :: rest) := by
      cases dirs with
      | nil => rfl
      | cons next dirs =>
        rw [List.flatMap_cons, List.append_assoc]
        exact endsNames_directive next _
    rw [List.flatMap_cons, List.append_assoc, run_directive dir hrest, ih]
    rfl

/-! ## Files -/

theorem endsNames_header (h : Header) (rest : List Token) : EndsNames (h.tokens ++ rest) := by
  obtain ⟨directives, divider⟩ := h
  cases directives with
  | nil => rfl
  | cons dir dirs =>
    simp only [Header.tokens, List.flatMap_cons, List.append_assoc]
    exact endsNames_directive dir _

theorem run_opening_header (h : Header) :
    (bare .opening g firstRule).run (h.tokens ++ rest) =
      (bare .rules (h.directives.foldl addDirective g) firstRule).run rest := by
  calc (bare .opening g firstRule).run (h.tokens ++ rest)
      = (bare .definitions g firstRule).run (h.tokens ++ rest) :=
        run_congr_of_endsNames (endsNames_header h rest) fun t ht ↦
          stepToken_of_endsNames rfl ht
    _ = (bare .definitions g firstRule).run
          (h.directives.flatMap Directive.tokens ++ .divider h.divider :: rest) := by
        rw [Header.tokens, List.append_assoc, List.singleton_append]
    _ = (bare .rules (h.directives.foldl addDirective g) firstRule).run rest :=
        run_directives h.directives h.divider

theorem run_opening_clauses {cs : List Clause} (hne : cs ≠ []) :
    (bare .opening g firstRule).run (cs.flatMap Clause.tokens ++ rest) =
      (bare .rules g firstRule).run (cs.flatMap Clause.tokens ++ rest) := by
  cases cs with
  | nil => exact absurd rfl hne
  | cons c cs => rfl

/-- The grammar of a file before a missing start symbol is filled in. -/
def ofFile (f : File) : Grammar :=
  { f.clauses.foldl addClause (f.directives.foldl addDirective {}) with
    epilogue := epilogue? f.tail }

theorem run_file (f : File) :
    (bare .opening {} none).run f.tokens =
      some (bare .finished (ofFile f) (f.clauses.head?.map Clause.lhs)) := by
  have hsection : (bare .opening {} none).run f.tokens =
      (bare .rules (f.directives.foldl addDirective {}) none).run
        (f.clauses.flatMap Clause.tokens ++ [.divider f.tail]) := by
    cases hheader : f.header with
    | none =>
      simp only [File.tokens, File.directives, hheader]
      exact run_opening_clauses (f.starts_with_rule hheader)
    | some h =>
      simp only [File.tokens, File.directives, hheader, Option.toList, List.flatMap_cons,
        List.flatMap_nil, List.append_assoc, List.nil_append]
      exact run_opening_header h
  rw [hsection, run_clauses]
  rfl

end ParserGenerator.Grammar
