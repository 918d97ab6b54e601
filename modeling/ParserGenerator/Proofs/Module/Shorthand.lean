import ParserGenerator.Proofs.Registry.Closure

/-!
# Shorthand is always valid

A shorthand registers the base of the symbol that it stands for, so the check before generation
finds every derived symbol that a shorthand brings into a rule, however deeply the shorthand is
nested. In a file whose rules use no name that looks derived, nothing else looks derived, and no
family derives what a rule defines. Such a file is refused for its start symbol or its handlers
only.
-/

namespace ParserGenerator

/-! ## Suffixes -/

/-- The name ends with the suffix of no family. -/
def IsUnderived (name : String) : Prop :=
  ∀ kind : FamilyKind, ¬ kind.suffix.toList <:+ name.toList

instance (name : String) : Decidable (IsUnderived name) :=
  decidable_of_iff (∀ kind ∈ FamilyKind.all, ¬ kind.suffix.toList <:+ name.toList)
    ⟨fun h kind ↦ h kind kind.mem_all, fun h kind _ ↦ h kind⟩

namespace FamilyKind

variable {kind : FamilyKind} {symbol base : String}

theorem suffix_isSuffix_derived (kind : FamilyKind) (base : String) :
    kind.suffix.toList <:+ (kind.derived base).toList :=
  ⟨base.toList, String.toList_append.symm⟩

theorem not_isUnderived_derived (kind : FamilyKind) (base : String) :
    ¬ IsUnderived (kind.derived base) :=
  fun h ↦ h kind (kind.suffix_isSuffix_derived base)

theorem derived_of_base? (h : kind.base? symbol = some base) : kind.derived base = symbol := by
  unfold base? at h
  split at h
  · cases h
  · cases h
  · next cs hstrip =>
    rw [← Option.some.inj h, derived, ← String.toList_inj, String.toList_append,
      String.toList_ofList]
    unfold Text.stripSuffix? at hstrip
    split at hstrip
    · next hsuffix =>
      obtain ⟨before, hbefore⟩ := List.isSuffixOf_iff_suffix.1 hsuffix
      rw [← Option.some.inj hstrip, ← hbefore]
      simp
    · cases hstrip

end FamilyKind

/-! ## Checks -/

namespace Grammar

theorem firstRepeated_eq_none_iff {seen names : List String} :
    firstRepeated seen names = none ↔ names.Nodup ∧ ∀ name ∈ names, name ∉ seen := by
  constructor
  · exact nodup_of_firstRepeated
  · rintro ⟨hnodup, hseen⟩
    induction names generalizing seen with
    | nil => rfl
    | cons name names ih =>
      obtain ⟨hname, hnames⟩ := List.nodup_cons.1 hnodup
      rw [firstRepeated, if_neg (hseen name List.mem_cons_self)]
      apply ih hnames
      intro other hother hmem
      rcases List.mem_cons.1 hmem with rfl | hlater
      · exact hname hother
      · exact hseen other (List.mem_cons_of_mem _ hother) hlater

variable {g : Grammar}

/-- Without derived symbols to complain about, only the start symbol and the handlers are left. -/
theorem problem?_eq (hcollision : g.firstCollision = none)
    (hunregistered : g.firstUnregistered = none) :
    g.problem? = if g.start = "" then some .missingStart
      else (firstRepeated [] (g.rules.map Rule.name)).map .duplicateHandler := by
  rw [problem?, hcollision, hunregistered]
  split
  · rfl
  · cases firstRepeated [] (g.rules.map Rule.name) <;> rfl

end Grammar

namespace Module

variable {g : Grammar} {o : Options} {e : GenerateError}

/-- Apart from the template, all that generation complains about is a problem of the grammar. -/
theorem problem?_of_generate_eq_error (h : generate g o = .error e) :
    (∃ t, e = .template t) ∨ g.problem? = some e := by
  unfold generate at h
  split at h
  · exact .inl ⟨_, (Except.error.inj h).symm⟩
  · split at h
    · exact .inl ⟨_, (Except.error.inj h).symm⟩
    · split at h
      · next hproblem => exact .inr (hproblem.trans (congrArg some (Except.error.inj h)))
      · cases h

end Module

namespace NameSet

theorem mem_insertAll {s : NameSet} {names : List String} {a : String} :
    a ∈ s.insertAll names ↔ a ∈ s ∨ a ∈ names := by
  induction names generalizing s with
  | nil => simp [insertAll]
  | cons name names ih =>
    have hcons : s.insertAll (name :: names) = (s.insert name).insertAll names := rfl
    rw [hcons, ih, mem_insert, List.mem_cons, or_assoc]

end NameSet

namespace Derivation

open Lexer

variable {f : File} {families : List (FamilyKind × String)}

/-! ## Families of a file -/

/-- The families that the rules of a file need are registered, whatever else is requested. -/
theorem mem_families_of_mem_bases {kind : FamilyKind} {base : String}
    (h : (kind, base) ∈ f.bases) :
    base ∈ (f.grammar.request families).families.get kind := by
  have hbase : base ∈ FamilySets.basesIn kind f.bases :=
    List.mem_map.2 ⟨(kind, base), List.mem_filter.2 ⟨h, by simp⟩, rfl⟩
  rw [Grammar.request, FamilySets.get_foldl_insert, NameSet.mem_insertAll,
    ← Grammar.families_request, Grammar.request, FamilySets.get_foldl_insert,
    NameSet.mem_insertAll]
  exact .inl (.inr hbase)

theorem File.mem_bases {p : Place} (hp : p ∈ f.places) {e : Element} (he : e ∈ p.alt)
    {entry : FamilyKind × String} (h : entry ∈ e.bases) : entry ∈ f.bases := by
  obtain ⟨hclause, halt⟩ := File.mem_places hp
  apply List.mem_flatMap.2
  refine ⟨p.clause, hclause, ?_⟩
  apply List.mem_flatMap.2
  refine ⟨p.alt, halt, ?_⟩
  exact List.mem_flatMap.2 ⟨e, he, h⟩

/-- A symbol that a reference stands for is a name, or its base is one that the reference needs. -/
theorem Reference.mem_bases {r : Reference}
    (h : ∀ name, .identifier name ∈ r.tokens → IsUnderived name) {kind : FamilyKind}
    {base : String} (hbase : kind.base? r.symbol = some base) : (kind, base) ∈ r.bases := by
  have hsymbol := FamilyKind.derived_of_base? hbase
  cases r with
  | plain name =>
    have hname : kind.derived base = name := hsymbol
    have hunderived := h name (by simp [Reference.tokens])
    rw [← hname] at hunderived
    exact absurd hunderived (kind.not_isUnderived_derived base)
  | wrapped kind' inner =>
    -- The suffix tells the kind, so the base is the symbol inside, however deep that is nested.
    rw [symbol_wrapped] at hsymbol
    obtain ⟨rfl, rfl⟩ := FamilyKind.derived_inj hsymbol
    simp [Reference.bases]

/-! ## Files without derived names -/

/-- No name in the rules of the file looks derived. -/
def File.Underived (f : File) : Prop :=
  ∀ c ∈ f.clauses, ∀ name, .identifier name ∈ c.tokens → IsUnderived name

/-- There is a symbol to start with: one that is declared or the first rule. -/
def File.HasStart (f : File) : Prop := (∃ name, .start name ∈ f.directives) ∨ f.clauses ≠ []

theorem startName?_eq_some {dir : Directive} {name : String} :
    dir.startName? = some name ↔ dir = .start name := by
  cases dir <;> simp [Directive.startName?]

theorem start_grammar_eq_empty_iff (hnames : Grammar.NamesNonempty f.tokens) :
    f.grammar.start = "" ↔ ¬ f.HasStart := by
  have hstart : f.grammar.start = f.start := rfl
  rw [hstart, File.start]
  cases hlast : (f.directives.filterMap Directive.startName?).getLast? with
  | some name =>
    have hmem := List.mem_of_getLast? hlast
    obtain ⟨dir, hdir, hname⟩ := List.mem_filterMap.1 hmem
    rw [startName?_eq_some.1 hname] at hdir
    have hhas : f.HasStart := .inl ⟨name, hdir⟩
    have hne : name ≠ "" := hnames name (Grammar.mem_tokens_of_startName hmem)
    simp [hne, hhas]
  | none =>
    have hnone : ¬ ∃ name, Directive.start name ∈ f.directives := by
      rintro ⟨name, hdir⟩
      have hmem := List.mem_filterMap.2 ⟨_, hdir, startName?_eq_some.2 rfl⟩
      rw [List.getLast?_eq_none_iff.1 hlast] at hmem
      cases hmem
    cases hclauses : f.clauses with
    | nil => simp [File.HasStart, hnone, hclauses]
    | cons c cs =>
      have hclause : c ∈ f.clauses := by simp [hclauses]
      have hne : c.lhs ≠ "" :=
        hnames c.lhs (Clause.tokens_subset hclause (by simp [Clause.tokens]))
      simp [File.HasStart, hclauses, hne]

section Underived

variable (h : AllShaped f.tokens) (hf : f.Underived)

include h hf

/-- No family derives what a rule defines. -/
theorem firstCollision_eq_none : (f.grammar.request families).firstCollision = none := by
  apply List.findSome?_eq_none_iff.2
  intro kind _
  apply List.findSome?_eq_none_iff.2
  intro base _
  rw [defines_eq h, if_neg]
  rw [decide_eq_true_eq]
  rintro ⟨c, hc, hlhs⟩
  have hunderived := hf c hc c.lhs (by simp [Clause.tokens])
  rw [hlhs] at hunderived
  exact kind.not_isUnderived_derived base hunderived

/-- A symbol of an alternative is quoted, or its bases are registered. -/
theorem unregistered?_eq_none {p : Place} (hp : p ∈ f.places) {e : Element} (he : e ∈ p.alt)
    (hprec : e ≠ .prec) {symbol : String} (hs : e.symbol? = some symbol)
    (hterminal : (f.grammar.request families).isTerminal symbol = false) (rule : String) :
    (f.grammar.request families).unregistered? rule symbol = none := by
  obtain ⟨hclause, halt⟩ := File.mem_places hp
  cases e with
  | action text => cases hs
  | prec => exact absurd rfl hprec
  | quoted text =>
    obtain rfl := Option.some.inj hs
    obtain ⟨mark, body, hmark, htext, -⟩ :=
      allShaped_element h hp he (.quoted text) List.mem_cons_self
    have hquote : Symbols.isQuote mark = true := by
      obtain rfl | rfl := hmark <;> rfl
    simp [Grammar.isTerminal, htext, hquote] at hterminal
  | reference r =>
    obtain rfl := Option.some.inj hs
    apply List.findSome?_eq_none_iff.2
    intro kind _
    split
    · next base hbase =>
      have hreference : (kind, base) ∈ r.bases := by
        apply Reference.mem_bases _ hbase
        intro name hname
        exact hf p.clause hclause name (Clause.element_tokens_subset halt he hname)
      have hmem : (kind, base) ∈ f.bases := File.mem_bases hp he hreference
      simp [mem_families_of_mem_bases hmem]
    · rfl

theorem firstUnregistered_eq_none : (f.grammar.request families).firstUnregistered = none := by
  have hrules : (f.grammar.request families).rules = f.places.map Place.rule := f.rules_eq_map
  apply List.findSome?_eq_none_iff.2
  intro rule hrule
  rw [hrules] at hrule
  obtain ⟨p, hp, rfl⟩ := List.mem_map.1 hrule
  apply List.findSome?_eq_none_iff.2
  intro symbol hsymbol
  rw [Place.symbols_rule h hp] at hsymbol
  obtain ⟨e, he, hs⟩ := List.mem_filterMap.1 hsymbol
  obtain ⟨he, hprec⟩ := List.mem_filter.1 he
  split
  · rfl
  · next hterminal =>
    exact unregistered?_eq_none h hf hp he (by simpa using hprec) hs (by simpa using hterminal) _

/-- The start symbol and the names of the rules are all that a file without derived names can be
refused for. -/
theorem problem?_eq_of_underived :
    (f.grammar.request families).problem? = if f.grammar.start = "" then some .missingStart
      else (Grammar.firstRepeated [] (f.places.map fun p ↦ p.clause.nameOf p.index)).map
        .duplicateHandler := by
  have hrules : (f.grammar.request families).rules.map Rule.name =
      f.places.map fun p ↦ p.clause.nameOf p.index := by
    calc (f.grammar.request families).rules.map Rule.name
        = (f.places.map Place.rule).map Rule.name := congrArg _ f.rules_eq_map
      _ = f.places.map fun p ↦ p.clause.nameOf p.index := by
        rw [List.map_map]
        rfl
  rw [Grammar.problem?_eq (firstCollision_eq_none h hf) (firstUnregistered_eq_none h hf), hrules]
  rfl

theorem eq_of_problem? {e : GenerateError}
    (he : (f.grammar.request families).problem? = some e) :
    e = .missingStart ∨ ∃ name, e = .duplicateHandler name := by
  rw [problem?_eq_of_underived h hf] at he
  split at he
  · exact .inl (Option.some.inj he).symm
  · obtain ⟨name, -, rfl⟩ := Option.map_eq_some_iff.1 he
    exact .inr ⟨name, rfl⟩

theorem problem?_eq_missingStart_iff (hnames : Grammar.NamesNonempty f.tokens) :
    (f.grammar.request families).problem? = some .missingStart ↔ ¬ f.HasStart := by
  rw [problem?_eq_of_underived h hf, ← start_grammar_eq_empty_iff hnames]
  by_cases hempty : f.grammar.start = "" <;> simp [hempty]

theorem problem?_eq_duplicateHandler_iff (hnames : Grammar.NamesNonempty f.tokens) :
    (∃ name, (f.grammar.request families).problem? = some (.duplicateHandler name)) ↔
      f.HasStart ∧ ¬ (f.places.map fun p ↦ p.clause.nameOf p.index).Nodup := by
  have hstart := start_grammar_eq_empty_iff hnames
  have hnodup : Grammar.firstRepeated [] (f.places.map fun p ↦ p.clause.nameOf p.index) = none ↔
      (f.places.map fun p ↦ p.clause.nameOf p.index).Nodup := by
    simp [Grammar.firstRepeated_eq_none_iff]
  rw [problem?_eq_of_underived h hf, ← hnodup]
  split
  · next hempty => simp [hstart.1 hempty]
  · next hempty =>
    have hhas : f.HasStart := not_not.1 fun hnot ↦ hempty (hstart.2 hnot)
    cases Grammar.firstRepeated [] (f.places.map fun p ↦ p.clause.nameOf p.index) with
    | none => simp
    | some name => simp [hhas]

end Underived

end Derivation

open Lexer ParserGenerator.Derivation

/-- Shorthand alone never makes a grammar invalid. If no name in the rules of a source looks
derived, generation complains about no derived symbol, whatever families are requested. With the
standard template it fails only if there is no start symbol, or if there is one and two alternatives
have the same name. -/
theorem generate_underived {source : String} {parsed : Grammar.Parsed}
    (h : (Grammar.parse source).result = .ok parsed) :
    (∃ file : File, file.tokens = tokensOf (delivered source)) ∧
    ∀ file : File, file.tokens = tokensOf (delivered source) → file.Underived →
      ∀ o : Options,
        let answer := Module.generate (parsed.grammar.request o.families) o
        (∀ rule symbol base kind, answer ≠ .error (.unregistered rule symbol base kind)) ∧
        (∀ name base kind, answer ≠ .error (.derivedCollision name base kind)) ∧
        (o.template = none →
          (∀ e, answer = .error e → e = .missingStart ∨ ∃ name, e = .duplicateHandler name) ∧
          (answer = .error .missingStart ↔ ¬ file.HasStart) ∧
          ((∃ name, answer = .error (.duplicateHandler name)) ↔
            file.HasStart ∧ ¬ (file.places.map fun p ↦ p.clause.nameOf p.index).Nodup)) := by
  obtain ⟨hfailures, derived, hderived, -⟩ := (Grammar.parse_eq_ok_iff source parsed).1 h
  refine ⟨⟨derived, hderived⟩, ?_⟩
  intro file hfile hunderived o answer
  have hresult := (Grammar.parse_eq_ok_iff source _).2 ⟨hfailures, file, hfile, rfl⟩
  obtain rfl := Except.ok.inj (h.symm.trans hresult)
  have hnames : Grammar.NamesNonempty file.tokens := by
    rw [hfile]
    exact Grammar.namesNonempty_delivered source
  have hshaped := allShaped_of_tokens hfile
  have hcases (e : GenerateError) (he : answer = .error e) :
      (∃ t, e = .template t) ∨ e = .missingStart ∨ ∃ name, e = .duplicateHandler name :=
    (Module.problem?_of_generate_eq_error he).imp_right (eq_of_problem? hshaped hunderived)
  refine ⟨?_, ?_, ?_⟩
  · intro rule symbol base kind he
    simpa using hcases _ he
  · intro name base kind he
    simpa using hcases _ he
  · intro ho
    simp only [answer, Module.generate_eq_error_iff ho]
    exact ⟨fun e ↦ eq_of_problem? hshaped hunderived,
      problem?_eq_missingStart_iff hshaped hunderived hnames,
      problem?_eq_duplicateHandler_iff hshaped hunderived hnames⟩

/-- Three nested shorthands, a literal that looks derived, a precedence mark with a name, and
requests for families of derived symbols. -/
theorem generate_underived_nested :
    let source := "%%\nx : [<(a)>] 'a_opt' %prec b ;\n%%\n"
    let o : Options := { families := [(.optional, "x_list"), (.list, "")] }
    ∃ parsed text, (Grammar.parse source).result = .ok parsed ∧
      Module.generate (parsed.grammar.request o.families) o = .ok text := by
  intro source o
  let file : File :=
    { header := some ⟨[], none⟩
      clauses := [⟨"x", [.reference (.wrapped .optional (.wrapped .list (.wrapped .string
          (.plain "a")))), .quoted "'a_opt'", .prec, .reference (.plain "b")], []⟩]
      tail := some "\n"
      starts_with_rule := nofun }
  have hfailures : failuresOf (delivered source) = [] := by decide +kernel
  have hfile : file.tokens = tokensOf (delivered source) := by decide +kernel
  have hparsed := (Grammar.parse_eq_ok_iff source _).2 ⟨hfailures, file, hfile, rfl⟩
  have hunderived : file.Underived := by
    intro c hc name hname
    obtain rfl := List.mem_singleton.1 hc
    have hnames : name = "x" ∨ name = "a" ∨ name = "b" := by
      simpa [Clause.tokens, Element.tokens, Reference.tokens, openSign, closeSign] using hname
    obtain rfl | rfl | rfl := hnames <;> decide
  obtain ⟨-, -, hstandard⟩ := (generate_underived hparsed).2 file hfile hunderived o
  obtain ⟨hrefused, hstart, hrepeated⟩ := hstandard rfl
  have hhas : file.HasStart := .inr (List.cons_ne_nil _ _)
  have hnodup : (file.places.map fun p ↦ p.clause.nameOf p.index).Nodup := by decide +kernel
  obtain ⟨text, htext⟩ :
      ∃ text, Module.generate (file.grammar.request o.families) o = .ok text := by
    cases hanswer : Module.generate (file.grammar.request o.families) o with
    | ok text => exact ⟨text, rfl⟩
    | error e =>
      obtain rfl | ⟨name, rfl⟩ := hrefused e hanswer
      · exact absurd hhas (hstart.1 hanswer)
      · exact absurd hnodup (hrepeated.1 ⟨name, hanswer⟩).2
  exact ⟨_, text, hparsed, htext⟩

end ParserGenerator
