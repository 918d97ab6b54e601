import ParserGenerator.Proofs.Derivation.Completeness

/-!
# Everything that is read has a derivation

If the reader accepts the tokens from some control state on, the tokens start with what that state
still has to see. Each lemma cuts one nonterminal off the front of an accepted token list; together
they give a file whose tokens are the list.
-/

namespace ParserGenerator.Grammar

open ParserGenerator.Derivation State

/-- From a control state on, all tokens are read and the file is complete. -/
def AcceptsFrom (c : Control) (ts : List Token) : Prop :=
  ∃ g firstRule final, (bare c g firstRule).run ts = some final ∧ final.control = .finished

theorem bare_of_stepToken {s next : State} {t : Token} (h : s.stepToken t = some next) :
    next = bare next.control next.grammar next.firstRule := by
  obtain ⟨stepped, -, rfl⟩ := Option.map_eq_some_iff.1 h
  rfl

/-- The first token of an accepted list, with a state that follows it. -/
theorem AcceptsFrom.cons {c : Control} {t : Token} {ts : List Token}
    (h : AcceptsFrom c (t :: ts)) :
    ∃ g firstRule next, (bare c g firstRule).stepToken t = some next ∧
      AcceptsFrom next.control ts := by
  obtain ⟨g, firstRule, final, hrun, hfinal⟩ := h
  rw [run_cons] at hrun
  obtain ⟨next, hstep, hrun⟩ := Option.bind_eq_some_iff.1 hrun
  rw [bare_of_stepToken hstep] at hrun
  exact ⟨g, firstRule, next, hstep, next.grammar, next.firstRule, final, hrun, hfinal⟩

theorem AcceptsFrom.ne_nil {c : Control} {ts : List Token} (h : AcceptsFrom c ts)
    (hc : c ≠ .finished) : ts ≠ [] := by
  rintro rfl
  obtain ⟨g, firstRule, final, hrun, hfinal⟩ := h
  obtain rfl := Option.some.inj hrun
  exact hc hfinal

/-- A control state that is not the last one is followed by a token. -/
theorem AcceptsFrom.exists_cons {c : Control} {ts : List Token} (h : AcceptsFrom c ts)
    (hc : c ≠ .finished) :
    ∃ t rest g firstRule next, ts = t :: rest ∧ (bare c g firstRule).stepToken t = some next ∧
      AcceptsFrom next.control rest := by
  obtain ⟨t, rest, rfl⟩ := List.exists_cons_of_ne_nil (h.ne_nil hc)
  obtain ⟨g, firstRule, next, hstep, hnext⟩ := h.cons
  exact ⟨t, rest, g, firstRule, next, rfl, hstep, hnext⟩

/-- Two states that take a token to the same state accept the same lists that start with it. -/
theorem AcceptsFrom.of_stepToken {c c' : Control} {t : Token} {ts : List Token}
    (h : AcceptsFrom c (t :: ts))
    (hstep : ∀ g firstRule, ∃ g', (bare c g firstRule).stepToken t =
      (bare c' g' firstRule).stepToken t) : AcceptsFrom c' (t :: ts) := by
  obtain ⟨g, firstRule, final, hrun, hfinal⟩ := h
  obtain ⟨g', heq⟩ := hstep g firstRule
  exact ⟨g', firstRule, final, by rw [run_cons, ← heq, ← run_cons, hrun], hfinal⟩

/-! ## Single tokens -/

theorem sign_eq_some {p : Punctuation} {t : Token} {next s : State} (h : sign p t next = some s) :
    t = .punctuation p ∧ next = s := by
  unfold sign at h
  split at h
  · next ht => exact ⟨ht, Option.some.inj h⟩
  · simp at h

theorem identifier_eq_some {t : Token} {next : String → State} {s : State}
    (h : identifier t next = some s) : ∃ name, t = .identifier name ∧ next name = s := by
  cases t with
  | identifier name => exact ⟨name, rfl, Option.some.inj h⟩
  | _ => simp [identifier] at h

/-- A state that waits for a sign. -/
theorem AcceptsFrom.sign {c : Control} {p : Punctuation} {ts : List Token}
    (h : AcceptsFrom c ts) (c' : Control) (hc : c ≠ .finished)
    (hstep : ∀ g firstRule t, (bare c g firstRule).stepToken t =
      (State.sign p t (bare c' g firstRule)).map core) :
    ∃ rest, ts = .punctuation p :: rest ∧ AcceptsFrom c'.dropLines rest := by
  obtain ⟨t, rest, g, firstRule, next, rfl, hnext, hrest⟩ := h.exists_cons hc
  rw [hstep] at hnext
  obtain ⟨s, hs, rfl⟩ := Option.map_eq_some_iff.1 hnext
  obtain ⟨rfl, rfl⟩ := sign_eq_some hs
  exact ⟨rest, rfl, hrest⟩

/-- A state that waits for an identifier. -/
theorem AcceptsFrom.identifier {c : Control} {ts : List Token} (h : AcceptsFrom c ts)
    (c' : Control) (hc : c ≠ .finished)
    (hstep : ∀ g firstRule t, ∃ g' : String → Grammar, (bare c g firstRule).stepToken t =
      (State.identifier t fun name ↦ bare c' (g' name) firstRule).map core) :
    ∃ name rest, ts = .identifier name :: rest ∧ AcceptsFrom c'.dropLines rest := by
  obtain ⟨t, rest, g, firstRule, next, rfl, hnext, hrest⟩ := h.exists_cons hc
  obtain ⟨g', hg'⟩ := hstep g firstRule t
  rw [hg'] at hnext
  obtain ⟨s, hs, rfl⟩ := Option.map_eq_some_iff.1 hnext
  obtain ⟨name, rfl, rfl⟩ := identifier_eq_some hs
  exact ⟨name, rest, rfl, hrest⟩

/-! ## Definitions -/

theorem AcceptsFrom.startSymbol {ts : List Token} (h : AcceptsFrom .startSymbol ts) :
    ∃ name rest, ts = .identifier name :: rest ∧ AcceptsFrom .definitions rest :=
  h.identifier .definitions (by simp) fun g _ _ ↦ ⟨fun name ↦ { g with start := name }, rfl⟩

theorem AcceptsFrom.declarationTag {d : Declaration} {ts : List Token}
    (h : AcceptsFrom (.declarationTag d) ts) :
    ∃ tag rest, ts = .identifier tag :: .punctuation .greater :: rest ∧
      AcceptsFrom (.tokenName d []) rest := by
  obtain ⟨tag, rest, rfl, hrest⟩ := h.identifier (.declarationTagEnd d) (by simp)
    fun g _ _ ↦ ⟨fun _ ↦ g, rfl⟩
  obtain ⟨rest, rfl, hrest⟩ := AcceptsFrom.sign hrest (.tokenName d [])
    (by simp [Control.dropLines]) fun _ _ _ ↦ rfl
  exact ⟨tag, rest, rfl, hrest⟩

theorem AcceptsFrom.tokenName {d : Declaration} {names : List String} {ts : List Token}
    (h : AcceptsFrom (.tokenName d names) ts) :
    ∃ (name : TokenName) (rest : List Token), ts = name.token :: rest ∧
      AcceptsFrom (.tokenNames d (names ++ [name.text]) false) rest := by
  obtain ⟨t, rest, g, firstRule, next, rfl, hstep, hrest⟩ := h.exists_cons (by simp)
  cases t with
  | identifier name =>
    obtain rfl := Option.some.inj hstep
    exact ⟨.identifier name, rest, rfl, hrest⟩
  | quoted text =>
    obtain rfl := Option.some.inj hstep
    exact ⟨.quoted text, rest, rfl, hrest⟩
  | _ => cases hstep

/-- What can follow a token name: its number, another name, or the end of the declaration. -/
theorem AcceptsFrom.tokenNames_cases {d : Declaration} {names : List String} {numbered : Bool}
    {ts : List Token} (h : AcceptsFrom (.tokenNames d names numbered) ts) :
    (∃ digits rest, numbered = false ∧ ts = .number digits :: rest ∧
      AcceptsFrom (.tokenNames d names true) rest) ∨
    (∃ (comma : Bool) (name : TokenName) (rest : List Token),
      ts = optionalSign .comma comma ++ name.token :: rest ∧
      AcceptsFrom (.tokenNames d (names ++ [name.text]) false) rest) ∨
    ∃ (semicolon : Bool) (rest : List Token), ts = optionalSign .semicolon semicolon ++ rest ∧
      AcceptsFrom .definitions rest := by
  obtain ⟨t, rest, g, firstRule, next, rfl, hstep, hrest⟩ := h.exists_cons (by simp)
  have hends (ht : endsNames t = true) : AcceptsFrom .definitions (t :: rest) :=
    h.of_stepToken fun g _ ↦
      ⟨g.declareNames names d, stepToken_tokenNames_of_endsNames ht d names _⟩
  cases t with
  | number digits =>
    cases numbered with
    | true => cases d <;> cases hstep
    | false =>
      obtain rfl := Option.some.inj hstep
      exact .inl ⟨digits, rest, rfl, rfl, hrest⟩
  | identifier name =>
    obtain rfl := Option.some.inj hstep
    exact .inr (.inl ⟨false, .identifier name, rest, rfl, hrest⟩)
  | quoted text =>
    obtain rfl := Option.some.inj hstep
    exact .inr (.inl ⟨false, .quoted text, rest, rfl, hrest⟩)
  | punctuation p =>
    cases p with
    | comma =>
      obtain rfl := Option.some.inj hstep
      obtain ⟨name, after, rfl, hafter⟩ := AcceptsFrom.tokenName hrest
      exact .inr (.inl ⟨true, name, after, rfl, hafter⟩)
    | semicolon =>
      obtain rfl := Option.some.inj hstep
      cases d <;> exact .inr (.inr ⟨true, rest, rfl, hrest⟩)
    | _ => cases d <;> cases hstep
  | code text => cases d <;> cases hstep
  | _ => exact .inr (.inr ⟨false, _, rfl, hends rfl⟩)

theorem AcceptsFrom.tokenNames {d : Declaration} {names : List String} {numbered : Bool}
    {ts : List Token} (h : AcceptsFrom (.tokenNames d names numbered) ts) :
    ∃ (number : Option String) (more : List NextTokenId) (semicolon : Bool) (rest : List Token),
      (numbered = true → number = none) ∧
      ts = number.toList.map .number ++ (more.flatMap NextTokenId.tokens ++
        (optionalSign .semicolon semicolon ++ rest)) ∧
      AcceptsFrom .definitions rest := by
  induction hn : ts.length using Nat.strongRecOn generalizing ts names numbered with
  | ind n ih =>
  subst hn
  obtain ⟨digits, rest, rfl, rfl, hrest⟩ | ⟨comma, name, rest, rfl, hrest⟩ |
    ⟨semicolon, rest, rfl, hrest⟩ := h.tokenNames_cases
  · obtain ⟨number, more, semicolon, after, hnone, rfl, hafter⟩ := ih _ (by simp) hrest rfl
    obtain rfl := hnone rfl
    exact ⟨some digits, more, semicolon, after, by simp, by simp, hafter⟩
  · obtain ⟨number, more, semicolon, after, -, rfl, hafter⟩ :=
      ih rest.length (by simp; omega) hrest rfl
    refine ⟨none, ⟨comma, name, number⟩ :: more, semicolon, after, by simp, ?_, hafter⟩
    simp [NextTokenId.tokens, TokenId.tokens]
  · exact ⟨none, [], semicolon, rest, by simp, by simp, hrest⟩

/-- A declaration after its keyword. -/
theorem AcceptsFrom.declaration {d : Declaration} {ts : List Token}
    (h : AcceptsFrom (.declaration d) ts) :
    ∃ (dir : Directive) (rest : List Token), .keyword (keywordOf d) :: ts = dir.tokens ++ rest ∧
      AcceptsFrom .definitions rest := by
  have hnames : ∃ (tag : Option String) (name : TokenName) (rest : List Token),
      ts = tag.toList.flatMap tagTokens ++ name.token :: rest ∧
      AcceptsFrom (.tokenNames d [name.text] false) rest := by
    obtain ⟨t, rest, g, firstRule, next, rfl, hstep, hrest⟩ := h.exists_cons (by simp)
    cases t with
    | identifier name =>
      obtain rfl := Option.some.inj hstep
      exact ⟨none, .identifier name, rest, rfl, hrest⟩
    | quoted text =>
      obtain rfl := Option.some.inj hstep
      exact ⟨none, .quoted text, rest, rfl, hrest⟩
    | punctuation p =>
      cases p with
      | less =>
        obtain rfl := Option.some.inj hstep
        obtain ⟨tag, names, rfl, hnames⟩ := AcceptsFrom.declarationTag hrest
        obtain ⟨name, after, rfl, hafter⟩ := hnames.tokenName
        exact ⟨some tag, name, after, rfl, hafter⟩
      | _ => cases hstep
    | _ => cases hstep
  obtain ⟨tag, name, rest, rfl, hrest⟩ := hnames
  obtain ⟨number, more, semicolon, after, -, rfl, hafter⟩ := hrest.tokenNames
  refine ⟨.declaration d tag ⟨name, number⟩ more semicolon, after, ?_, hafter⟩
  simp [Directive.tokens, TokenId.tokens]

/-- The tokens after a symbol name of a type declaration; a comma that has been read already is put
back in front of them. -/
theorem AcceptsFrom.symbolNames {comma : Bool} {ts : List Token}
    (h : AcceptsFrom (.symbolNames comma) ts) :
    ∃ (more : List NextSymbol) (last semicolon : Bool) (rest : List Token),
      optionalSign .comma comma ++ ts = more.flatMap NextSymbol.tokens ++
        (optionalSign .comma last ++ (optionalSign .semicolon semicolon ++ rest)) ∧
      AcceptsFrom .definitions rest := by
  induction ts generalizing comma with
  | nil => exact absurd rfl (h.ne_nil (by simp))
  | cons t ts ih =>
    obtain ⟨g, firstRule, next, hstep, hnext⟩ := h.cons
    have hends (ht : endsNames t = true) : AcceptsFrom .definitions (t :: ts) :=
      h.of_stepToken fun g _ ↦ ⟨g, stepToken_of_endsNames rfl ht⟩
    cases t with
    | identifier name =>
      obtain rfl := Option.some.inj hstep
      obtain ⟨more, last, semicolon, rest, hts, hrest⟩ := ih hnext
      refine ⟨⟨comma, name⟩ :: more, last, semicolon, rest, ?_, hrest⟩
      simp only [optionalSign_false, List.nil_append] at hts
      simp [NextSymbol.tokens, hts]
    | punctuation p =>
      cases p with
      | comma =>
        cases comma with
        | true => cases hstep
        | false =>
          obtain rfl := Option.some.inj hstep
          obtain ⟨more, last, semicolon, rest, hts, hrest⟩ := ih hnext
          exact ⟨more, last, semicolon, rest, hts, hrest⟩
      | semicolon =>
        obtain rfl := Option.some.inj hstep
        exact ⟨[], comma, true, ts, rfl, hnext⟩
      | _ => cases hstep
    | quoted text => cases hstep
    | number digits => cases hstep
    | code text => cases hstep
    | _ => exact ⟨[], comma, false, _, rfl, hends rfl⟩

theorem AcceptsFrom.typeKeyword {ts : List Token} (h : AcceptsFrom .typeKeyword ts) :
    ∃ (dir : Directive) (rest : List Token), .keyword .type :: ts = dir.tokens ++ rest ∧
      AcceptsFrom .definitions rest := by
  obtain ⟨tail, rfl, htag⟩ := h.sign .typeTag (by simp) fun _ _ _ ↦ rfl
  obtain ⟨tag, tail, rfl, hend⟩ := AcceptsFrom.identifier htag .typeTagEnd
    (by simp [Control.dropLines]) fun g _ _ ↦ ⟨fun _ ↦ g, rfl⟩
  obtain ⟨tail, rfl, hname⟩ := AcceptsFrom.sign hend .symbolName
    (by simp [Control.dropLines]) fun _ _ _ ↦ rfl
  obtain ⟨first, tail, rfl, hnames⟩ := AcceptsFrom.identifier hname (.symbolNames false)
    (by simp [Control.dropLines]) fun g _ _ ↦ ⟨fun _ ↦ g, rfl⟩
  obtain ⟨more, comma, semicolon, rest, htail, hrest⟩ := AcceptsFrom.symbolNames hnames
  refine ⟨.type tag first more comma semicolon, rest, ?_, hrest⟩
  simp only [optionalSign_false, List.nil_append] at htail
  simp [Directive.tokens, tagTokens, htail]

theorem AcceptsFrom.unionBlock {ts : List Token} (h : AcceptsFrom .unionBlock ts) :
    ∃ (semicolon : Bool) (rest : List Token), ts = optionalSign .semicolon semicolon ++ rest ∧
      AcceptsFrom .definitions rest := by
  obtain ⟨t, rest, g, firstRule, next, rfl, hstep, hrest⟩ := h.exists_cons (by simp)
  have hends (ht : endsNames t = true) : AcceptsFrom .definitions (t :: rest) :=
    h.of_stepToken fun g _ ↦ ⟨g, stepToken_of_endsNames rfl ht⟩
  cases t with
  | divider tail => exact ⟨false, _, rfl, hends rfl⟩
  | literal body => exact ⟨false, _, rfl, hends rfl⟩
  | keyword k => exact ⟨false, _, rfl, hends rfl⟩
  | punctuation p =>
    cases p with
    | semicolon =>
      obtain rfl := Option.some.inj hstep
      exact ⟨true, rest, rfl, hrest⟩
    | _ => cases hstep
  | _ => cases hstep

theorem AcceptsFrom.unionKeyword {ts : List Token} (h : AcceptsFrom .unionKeyword ts) :
    ∃ (dir : Directive) (rest : List Token), .keyword .union :: ts = dir.tokens ++ rest ∧
      AcceptsFrom .definitions rest := by
  obtain ⟨t, rest, g, firstRule, next, rfl, hstep, hrest⟩ := h.exists_cons (by simp)
  cases t with
  | code text =>
    obtain rfl := Option.some.inj hstep
    obtain ⟨semicolon, after, rfl, hafter⟩ := AcceptsFrom.unionBlock hrest
    exact ⟨.union text semicolon, after, by simp [Directive.tokens], hafter⟩
  | _ => cases hstep

/-- A definition, or the divider that ends the section. -/
theorem AcceptsFrom.definition {ts : List Token} (h : AcceptsFrom .definitions ts) :
    (∃ tail rest, ts = .divider tail :: rest ∧ AcceptsFrom .rules rest) ∨
    ∃ (dir : Directive) (rest : List Token), ts = dir.tokens ++ rest ∧
      AcceptsFrom .definitions rest := by
  obtain ⟨t, rest, g, firstRule, next, rfl, hstep, hrest⟩ := h.exists_cons (by simp)
  cases t with
  | divider tail =>
    obtain rfl := Option.some.inj hstep
    exact .inl ⟨tail, rest, rfl, hrest⟩
  | literal body =>
    obtain rfl := Option.some.inj hstep
    exact .inr ⟨.literal body, rest, rfl, hrest⟩
  | keyword k =>
    right
    cases k with
    | prec => cases hstep
    | start =>
      obtain rfl := Option.some.inj hstep
      obtain ⟨name, after, rfl, hafter⟩ := AcceptsFrom.startSymbol hrest
      exact ⟨.start name, after, rfl, hafter⟩
    | token =>
      obtain rfl := Option.some.inj hstep
      exact AcceptsFrom.declaration (d := .tokens) hrest
    | left =>
      obtain rfl := Option.some.inj hstep
      exact AcceptsFrom.declaration (d := .precedence .left) hrest
    | right =>
      obtain rfl := Option.some.inj hstep
      exact AcceptsFrom.declaration (d := .precedence .right) hrest
    | nonassoc =>
      obtain rfl := Option.some.inj hstep
      exact AcceptsFrom.declaration (d := .precedence .nonassoc) hrest
    | type =>
      obtain rfl := Option.some.inj hstep
      exact AcceptsFrom.typeKeyword hrest
    | union =>
      obtain rfl := Option.some.inj hstep
      exact AcceptsFrom.unionKeyword hrest
  | _ => cases hstep

theorem tokens_ne_nil (dir : Directive) : dir.tokens ≠ [] := by
  cases dir <;> simp [Directive.tokens]

/-- The first section up to its divider. -/
theorem AcceptsFrom.definitions {ts : List Token} (h : AcceptsFrom .definitions ts) :
    ∃ (header : Header) (rest : List Token), ts = header.tokens ++ rest ∧
      AcceptsFrom .rules rest := by
  induction hn : ts.length using Nat.strongRecOn generalizing ts with
  | ind n ih =>
  subst hn
  obtain ⟨tail, rest, rfl, hrest⟩ | ⟨dir, rest, rfl, hrest⟩ := h.definition
  · exact ⟨⟨[], tail⟩, rest, rfl, hrest⟩
  · have hpos := List.length_pos_iff.2 (tokens_ne_nil dir)
    obtain ⟨⟨dirs, divider⟩, after, rfl, hafter⟩ := ih _ (by simp; omega) hrest rfl
    exact ⟨⟨dir :: dirs, divider⟩, after, by simp [Header.tokens], hafter⟩

/-! ## Rules -/

theorem control_reference (s : State) (d : Draft) (kinds : List FamilyKind) (symbol : String) :
    (s.reference d kinds symbol).control = afterSymbol d kinds symbol := by
  cases kinds <;> rfl

theorem dropLines_afterSymbol (d : Draft) (kinds : List FamilyKind) (symbol : String) :
    (afterSymbol d kinds symbol).dropLines = afterSymbol d.dropLines kinds symbol := by
  cases kinds <;> simp [afterSymbol, Control.dropLines, Part.dropLine]

/-- The control state after a step that names the symbol of a reference. -/
theorem control_core_reference (s : State) (d : Draft) (kinds : List FamilyKind)
    (symbol : String) :
    (s.reference d kinds symbol).core.control = afterSymbol d.dropLines kinds symbol := by
  rw [← dropLines_afterSymbol, ← control_reference s]
  rfl

theorem AcceptsFrom.unwrapping {d : Draft} {kind : FamilyKind} {outer : List FamilyKind}
    {symbol : String} {ts : List Token} (h : AcceptsFrom (.unwrapping d kind outer symbol) ts) :
    ∃ rest, ts = closeSign kind :: rest ∧
      AcceptsFrom (afterSymbol d.dropLines outer (kind.derived symbol)) rest := by
  obtain ⟨t, rest, g, firstRule, next, rfl, hstep, hrest⟩ := h.exists_cons (by simp)
  obtain ⟨s, hs, rfl⟩ := Option.map_eq_some_iff.1 hstep
  have hclose : closer kind = closeSign kind := by cases kind <;> rfl
  simp only [step, bare, unwrap] at hs
  split at hs
  · next ht =>
    obtain rfl := Option.some.inj hs
    rw [control_core_reference] at hrest
    exact ⟨rest, by rw [ht, hclose], hrest⟩
  · simp at hs

/-- The shorthand that a sign opens. -/
theorem openSign_of_opener? {t : Token} {kind : FamilyKind} (h : opener? t = some kind) :
    t = openSign kind := by
  cases t with
  | punctuation p => cases p <;> cases h <;> rfl
  | _ => cases h

/-- A name, or the sign that opens one more shorthand. -/
theorem AcceptsFrom.wrapped_cases {d : Draft} {kinds : List FamilyKind} {ts : List Token}
    (h : AcceptsFrom (.wrapped d kinds) ts) :
    (∃ name rest, ts = .identifier name :: rest ∧
      AcceptsFrom (afterSymbol d.dropLines kinds name) rest) ∨
    ∃ kind rest, ts = openSign kind :: rest ∧
      AcceptsFrom (.wrapped d.dropLines (kind :: kinds)) rest := by
  obtain ⟨t, rest, g, firstRule, next, rfl, hstep, hrest⟩ := h.exists_cons (by simp)
  obtain ⟨s, hs, rfl⟩ := Option.map_eq_some_iff.1 hstep
  simp only [step, bare, wrapped] at hs
  split at hs
  · next name =>
    obtain rfl := Option.some.inj hs
    rw [control_core_reference] at hrest
    exact .inl ⟨name, rest, rfl, hrest⟩
  · obtain ⟨kind, hkind, rfl⟩ := Option.map_eq_some_iff.1 hs
    exact .inr ⟨kind, rest, by rw [openSign_of_opener? hkind], hrest⟩

/-- A reference, whatever shorthands stand around it. -/
theorem AcceptsFrom.wrapped {d : Draft} {kinds : List FamilyKind} {ts : List Token}
    (h : AcceptsFrom (.wrapped d kinds) ts) :
    ∃ (r : Reference) (d' : Draft) (rest : List Token), ts = r.tokens ++ rest ∧
      AcceptsFrom (afterSymbol d' kinds r.symbol) rest := by
  induction ts generalizing d kinds with
  | nil => exact absurd rfl (h.ne_nil (by simp))
  | cons t ts ih =>
    obtain ⟨name, rest, heq, hrest⟩ | ⟨kind, rest, heq, hrest⟩ := h.wrapped_cases
    · obtain ⟨rfl, rfl⟩ := List.cons.inj heq
      exact ⟨.plain name, d.dropLines, ts, rfl, hrest⟩
    · obtain ⟨rfl, rfl⟩ := List.cons.inj heq
      obtain ⟨inner, d', tail, rfl, htail⟩ := ih hrest
      obtain ⟨after, rfl, hafter⟩ := AcceptsFrom.unwrapping htail
      rw [← Reference.symbol_wrapped] at hafter
      exact ⟨.wrapped kind inner, d'.dropLines, after, by simp [Reference.tokens], hafter⟩

/-- An item, a bar, or the end of the rule. -/
theorem AcceptsFrom.part {d : Draft} {ts : List Token} (h : AcceptsFrom (.parts d) ts) :
    (∃ (e : Element) (d' : Draft) (rest : List Token), ts = e.tokens ++ rest ∧
      AcceptsFrom (.parts d') rest) ∨
    (∃ (d' : Draft) (rest : List Token), ts = .punctuation .bar :: rest ∧
      AcceptsFrom (.parts d') rest) ∨
    ∃ rest, ts = .punctuation .semicolon :: rest ∧ AcceptsFrom .rules rest := by
  obtain ⟨t, rest, g, firstRule, next, rfl, hstep, hrest⟩ := h.exists_cons (by simp)
  obtain ⟨s, hs, rfl⟩ := Option.map_eq_some_iff.1 hstep
  simp only [step, bare, State.part] at hs
  split at hs
  case h_1 =>
    obtain rfl := Option.some.inj hs
    exact .inr (.inl ⟨_, rest, rfl, hrest⟩)
  case h_2 =>
    obtain rfl := Option.some.inj hs
    exact .inr (.inr ⟨rest, rfl, hrest⟩)
  case h_3 text =>
    obtain rfl := Option.some.inj hs
    exact .inl ⟨.action text, _, rest, rfl, hrest⟩
  case h_4 =>
    obtain rfl := Option.some.inj hs
    exact .inl ⟨.prec, _, rest, rfl, hrest⟩
  case h_5 text =>
    obtain rfl := Option.some.inj hs
    exact .inl ⟨.quoted text, _, rest, rfl, hrest⟩
  case h_6 name =>
    obtain rfl := Option.some.inj hs
    exact .inl ⟨.reference (.plain name), _, rest, rfl, hrest⟩
  case h_7 =>
    obtain ⟨kind, hkind, rfl⟩ := Option.map_eq_some_iff.1 hs
    obtain ⟨inner, d', tail, rfl, htail⟩ := AcceptsFrom.wrapped hrest
    obtain ⟨after, rfl, hafter⟩ := AcceptsFrom.unwrapping htail
    have ht : t = openSign kind := openSign_of_opener? hkind
    left
    refine ⟨.reference (.wrapped kind inner), _, after, ?_, hafter⟩
    simp [Element.tokens, Reference.tokens, ht]

theorem Element.tokens_ne_nil (e : Element) : e.tokens ≠ [] := by
  cases e with
  | reference r => cases r <;> simp [Element.tokens, Reference.tokens]
  | _ => simp [Element.tokens]

/-- The rest of an alternative, the further alternatives, and the end of the rule. -/
theorem AcceptsFrom.parts {d : Draft} {ts : List Token} (h : AcceptsFrom (.parts d) ts) :
    ∃ (alt : List Element) (more : List (List Element)) (rest : List Token),
      ts = alt.flatMap Element.tokens ++
        (more.flatMap (fun alt ↦ .punctuation .bar :: alt.flatMap Element.tokens) ++
          .punctuation .semicolon :: rest) ∧
      AcceptsFrom .rules rest := by
  induction hn : ts.length using Nat.strongRecOn generalizing ts d with
  | ind n ih =>
  subst hn
  obtain ⟨e, d', tail, rfl, htail⟩ | ⟨d', tail, rfl, htail⟩ | ⟨rest, rfl, hrest⟩ := h.part
  · have hpos := List.length_pos_iff.2 (Element.tokens_ne_nil e)
    obtain ⟨alt, more, rest, rfl, hrest⟩ := ih _ (by rw [List.length_append]; omega) htail rfl
    exact ⟨e :: alt, more, rest, by simp, hrest⟩
  · obtain ⟨alt, more, rest, rfl, hrest⟩ := ih _ (by simp) htail rfl
    exact ⟨[], alt :: more, rest, by simp, hrest⟩
  · exact ⟨[], [], rest, rfl, hrest⟩

theorem AcceptsFrom.ruleName {lhs : String} {ts : List Token} (h : AcceptsFrom (.ruleName lhs) ts) :
    ∃ (clause : Clause) (rest : List Token), .identifier lhs :: ts = clause.tokens ++ rest ∧
      AcceptsFrom .rules rest := by
  obtain ⟨tail, rfl, htail⟩ := h.sign (.parts ⟨lhs, [], []⟩) (by simp) fun _ _ _ ↦ rfl
  obtain ⟨first, more, rest, rfl, hrest⟩ := AcceptsFrom.parts htail
  exact ⟨⟨lhs, first, more⟩, rest, by simp [Clause.tokens], hrest⟩

/-! ## Files -/

theorem AcceptsFrom.finished {ts : List Token} (h : AcceptsFrom .finished ts) : ts = [] := by
  cases ts with
  | nil => rfl
  | cons t ts =>
    obtain ⟨g, firstRule, next, hstep, -⟩ := h.cons
    cases hstep

/-- The rules and the divider that ends the file. -/
theorem AcceptsFrom.rules {ts : List Token} (h : AcceptsFrom .rules ts) :
    ∃ (clauses : List Clause) (tail : Option String),
      ts = clauses.flatMap Clause.tokens ++ [.divider tail] := by
  induction hn : ts.length using Nat.strongRecOn generalizing ts with
  | ind n ih =>
  subst hn
  obtain ⟨t, rest, g, firstRule, next, rfl, hstep, hrest⟩ := h.exists_cons (by simp)
  cases t with
  | identifier lhs =>
    obtain rfl := Option.some.inj hstep
    obtain ⟨clause, after, heq, hafter⟩ := AcceptsFrom.ruleName hrest
    have hlen : after.length < (Token.identifier lhs :: rest).length := by
      rw [heq]
      simp [Clause.tokens]
      omega
    obtain ⟨clauses, tail, rfl⟩ := ih _ hlen hafter rfl
    exact ⟨clause :: clauses, tail, by simp [heq]⟩
  | divider tail =>
    obtain rfl := Option.some.inj hstep
    exact ⟨[], tail, by rw [AcceptsFrom.finished hrest]; rfl⟩
  | _ => cases hstep

/-- A file may start with a rule; otherwise it starts with definitions. -/
theorem AcceptsFrom.opening {ts : List Token} (h : AcceptsFrom .opening ts) :
    ∃ file : File, file.tokens = ts := by
  obtain ⟨t, rest, g, firstRule, next, rfl, hstep, hrest⟩ := h.exists_cons (by simp)
  by_cases hid : ∃ name, t = .identifier name
  · obtain ⟨name, rfl⟩ := hid
    obtain rfl := Option.some.inj hstep
    obtain ⟨clause, after, heq, hafter⟩ := AcceptsFrom.ruleName hrest
    obtain ⟨clauses, tail, rfl⟩ := hafter.rules
    exact ⟨⟨none, clause :: clauses, tail, by simp⟩, by simp [File.tokens, heq]⟩
  · have hdef : AcceptsFrom .definitions (t :: rest) := h.of_stepToken fun g _ ↦ by
      refine ⟨g, ?_⟩
      cases t with
      | identifier name => exact absurd ⟨name, rfl⟩ hid
      | _ => rfl
    obtain ⟨header, after, heq, hafter⟩ := hdef.definitions
    obtain ⟨clauses, tail, rfl⟩ := hafter.rules
    exact ⟨⟨some header, clauses, tail, by simp⟩, by simp [File.tokens, heq]⟩

end ParserGenerator.Grammar
