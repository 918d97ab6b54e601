import ParserGenerator.Proofs.Registry.Construction

/-!
# Derived symbols without productions

The check before generation goes through the symbols of the rules, so every symbol of a rule that
looks derived has a production. It does not go through the base symbols of the families. A base that
looks derived itself stands in the productions of its family, and it has a production only if some
rule or another family happens to define it.
-/

namespace ParserGenerator

theorem FamilyKind.base?_derived {kind : FamilyKind} {base : String} (h : base ≠ "") :
    kind.base? (kind.derived base) = some base := by
  have hlist : (kind.derived base).toList = base.toList ++ kind.suffix.toList :=
    String.toList_append
  have hne : base.toList ≠ [] := fun hnil ↦ h (String.toList_eq_nil_iff.1 hnil)
  have hstrip : Text.stripSuffix? kind.suffix.toList (kind.derived base).toList =
      some base.toList := by
    simp [Text.stripSuffix?, hlist]
  obtain ⟨c, cs, hbase⟩ := List.exists_cons_of_ne_nil hne
  unfold base?
  rw [hstrip, hbase]
  change some (String.ofList (c :: cs)) = some base
  rw [← hbase, String.ofList_toList]

namespace Grammar

/-- A symbol that is neither quoted nor declared as a token and ends with the suffix of a family,
with a base before it. -/
def LooksDerived (g : Grammar) (symbol : String) : Prop :=
  (∀ c ∈ symbol.toList.head?, c ≠ '\'' ∧ c ≠ '"') ∧ symbol ∉ g.tokens ∧
    ∃ kind : FamilyKind, ∃ base, base ≠ "" ∧ kind.derived base = symbol

/-- Every symbol of a right-hand side that looks derived is the left-hand side of a production. -/
def Closed (g : Grammar) (productions : List Production) : Prop :=
  ∀ p ∈ productions, ∀ symbol ∈ p.rhs, g.LooksDerived symbol → ∃ q ∈ productions, q.lhs = symbol

/-- A family of the grammar derives the symbol. -/
def Derives (g : Grammar) (symbol : String) : Prop :=
  ∃ kind : FamilyKind, ∃ base ∈ g.families.get kind, kind.derived base = symbol

theorem LooksDerived.ne {g : Grammar} {symbol other : String} (h : g.LooksDerived symbol)
    (hlast : other.toList.getLast? ≠ some 't' ∧ other.toList.getLast? ≠ some 'g') :
    symbol ≠ other := by
  rintro rfl
  obtain ⟨-, -, kind, base, -, rfl⟩ := h
  cases kind <;> simp [FamilyKind.derived, FamilyKind.suffix] at hlast

/-- In a grammar without problems every symbol of a rule that looks derived has an origin. -/
theorem defines_or_derives {g : Grammar} (h : g.problem? = none) {r : Rule} (hr : r ∈ g.rules)
    {symbol : String} (hs : symbol ∈ r.symbols) (hlooks : g.LooksDerived symbol) :
    g.defines symbol = true ∨ g.Derives symbol := by
  obtain ⟨hquote, htoken, kind, base, hbase, rfl⟩ := hlooks
  have hunregistered := (checks_of_problem?_eq_none h).2.2
  have hnone := List.findSome?_eq_none_iff.1
    (List.findSome?_eq_none_iff.1 hunregistered r hr) _ hs
  have hterminal : g.isTerminal (kind.derived base) = false := by
    cases hhead : (kind.derived base).toList.head? with
    | none => simp [isTerminal, hhead, htoken]
    | some c =>
      obtain ⟨hsingle, hdouble⟩ := hquote c hhead
      simp [isTerminal, hhead, htoken, Symbols.isQuote, hsingle, hdouble]
  rw [hterminal, if_neg Bool.false_ne_true] at hnone
  have hregistered := List.findSome?_eq_none_iff.1 hnone kind kind.mem_all
  rw [FamilyKind.base?_derived hbase] at hregistered
  by_cases hdefines : g.defines (kind.derived base) = true
  · exact .inl hdefines
  · right
    refine ⟨kind, base, ?_, rfl⟩
    by_contra hnot
    simp [hnot, hdefines] at hregistered

end Grammar

namespace Registry

/-- The productions of a family hold its base, a quoted comma and the derived symbol. -/
theorem mem_rhs_of_mem_derivedProductions {kind : FamilyKind} {base symbol : String}
    {p : Production} (hp : p ∈ derivedProductions kind base) (hs : symbol ∈ p.rhs) :
    symbol = base ∨ symbol = "','" ∨ symbol = kind.derived base := by
  cases kind with
  | _ =>
    simp only [derivedProductions, List.mem_cons, List.not_mem_nil, or_false] at hp
    rcases hp with rfl | rfl <;>
      simp only [List.mem_cons, List.not_mem_nil, or_false] at hs <;>
      simp only [FamilyKind.derived, FamilyKind.suffix] <;> tauto

theorem exists_base_mem_rhs (kind : FamilyKind) (base : String) :
    ∃ p ∈ derivedProductions kind base, base ∈ p.rhs := by
  cases kind with
  | _ => simp [derivedProductions]

theorem exists_lhs_eq_derived {sets : FamilySets} {kind : FamilyKind} {base : String}
    (h : base ∈ sets.get kind) : ∃ p ∈ familyTable sets, p.lhs = kind.derived base := by
  obtain ⟨p, hp, -⟩ := exists_base_mem_rhs kind base
  exact ⟨p, mem_familyTable.2 ⟨kind, base, h, hp⟩, lhs_of_mem_derivedProductions hp⟩

end Registry

namespace Derivation

/-- A mark that has no name to take is written to the right-hand side. -/
theorem mem_of_mem_rhsOf {es : List Element} {s : String} (h : s ∈ rhsOf es)
    (hne : s ≠ Symbols.precMark) : ∃ e ∈ es, e ≠ .prec ∧ e.symbol? = some s := by
  have hmark {e : Element} (he : e.symbol? = some s) : e ≠ .prec := by
    rintro rfl
    exact hne (Option.some.inj he).symm
  fun_induction rhsOf es with
  | case1 => simp at h
  | case2 e =>
    have he : e.symbol? = some s := Option.mem_toList.1 h
    exact ⟨e, by simp, hmark he, he⟩
  | case3 next rest ih =>
    obtain ⟨e, he, hsymbol⟩ := ih h
    exact ⟨e, by simp [he], hsymbol⟩
  | case4 e next rest _ ih =>
    rcases List.mem_append.1 h with hhead | hlater
    · have he : e.symbol? = some s := Option.mem_toList.1 hhead
      exact ⟨e, by simp, hmark he, he⟩
    · obtain ⟨e', he', hsymbol⟩ := ih hlater
      exact ⟨e', List.mem_cons_of_mem _ he', hsymbol⟩

variable {f : File} {families : List (FamilyKind × String)}

/-- A symbol of a line is a symbol of its rule. -/
theorem Place.mem_symbols_rule (h : AllShaped f.tokens) {place : Place} (hp : place ∈ f.places)
    {symbol : String} (hs : symbol ∈ place.production.rhs) (hne : symbol ≠ Symbols.precMark) :
    symbol ∈ place.rule.symbols := by
  obtain ⟨e, he, hplain, hsymbol⟩ := mem_of_mem_rhsOf hs hne
  rw [Place.symbols_rule h hp]
  apply List.mem_filterMap.2
  refine ⟨e, List.mem_filter.2 ⟨(List.mem_filter.1 he).1, ?_⟩, hsymbol⟩
  simpa using hplain

/-- The left-hand sides that look derived are what clauses define and what families derive. -/
theorem exists_lhs_iff {symbol : String}
    (hlooks : (f.grammar.request families).LooksDerived symbol) :
    (∃ q ∈ f.lineProductions ++ Registry.familyTable (f.grammar.request families).families,
      q.lhs = symbol) ↔ f.Defines symbol ∨ (f.grammar.request families).Derives symbol := by
  constructor
  · rintro ⟨q, hq, rfl⟩
    rcases List.mem_append.1 hq with hline | hfamily
    · rcases List.mem_append.1 hline with hmem | hempty
      · obtain ⟨place, hplace, rfl⟩ := List.mem_map.1 hmem
        exact .inl ⟨place.clause, (File.mem_places hplace).1, rfl⟩
      · split at hempty
        · cases hempty
        · obtain rfl := List.mem_singleton.1 hempty
          have hne : emptyProduction.lhs ≠ "empty" := hlooks.ne (by decide)
          exact absurd rfl hne
    · obtain ⟨kind, base, hbase, hderived⟩ := Registry.mem_familyTable.1 hfamily
      exact .inr ⟨kind, base, hbase, (Registry.lhs_of_mem_derivedProductions hderived).symm⟩
  · rintro (⟨c, hc, rfl⟩ | ⟨kind, base, hbase, rfl⟩)
    · obtain ⟨place, hplace, rfl⟩ := File.exists_place hc
      have hline : place.production ∈ f.lineProductions :=
        List.mem_append_left _ (List.mem_map.2 ⟨place, hplace, rfl⟩)
      exact ⟨place.production, List.mem_append_left _ hline, rfl⟩
    · obtain ⟨q, hq, hlhs⟩ := Registry.exists_lhs_eq_derived hbase
      exact ⟨q, List.mem_append_right _ hq, hlhs⟩

/-- Every symbol of a line that looks derived has a production. -/
theorem exists_lhs_of_mem_line (h : AllShaped f.tokens)
    (hproblem : (f.grammar.request families).problem? = none) {p : Production}
    (hp : p ∈ f.lineProductions) {symbol : String} (hs : symbol ∈ p.rhs)
    (hlooks : (f.grammar.request families).LooksDerived symbol) :
    ∃ q ∈ f.lineProductions ++ Registry.familyTable (f.grammar.request families).families,
      q.lhs = symbol := by
  have hrules : (f.grammar.request families).rules = f.places.map Place.rule := f.rules_eq_map
  rw [exists_lhs_iff hlooks]
  rcases List.mem_append.1 hp with hmem | hempty
  · obtain ⟨place, hplace, rfl⟩ := List.mem_map.1 hmem
    have hsymbol := Place.mem_symbols_rule h hplace hs (hlooks.ne (by decide))
    have hrule : place.rule ∈ (f.grammar.request families).rules := by
      rw [hrules]
      exact List.mem_map.2 ⟨place, hplace, rfl⟩
    simpa [defines_eq h] using Grammar.defines_or_derives hproblem hrule hsymbol hlooks
  · split at hempty
    · cases hempty
    · obtain rfl := List.mem_singleton.1 hempty
      cases hs

/-- All symbols that look derived have productions exactly if the bases of the families do. -/
theorem closed_iff (h : AllShaped f.tokens)
    (hproblem : (f.grammar.request families).problem? = none) :
    (f.grammar.request families).Closed
      (f.lineProductions ++ Registry.familyTable (f.grammar.request families).families) ↔
    ∀ kind, ∀ base ∈ (f.grammar.request families).families.get kind,
      (f.grammar.request families).LooksDerived base →
        f.Defines base ∨ (f.grammar.request families).Derives base := by
  constructor
  · intro hclosed kind base hbase hlooks
    obtain ⟨p, hp, hmem⟩ := Registry.exists_base_mem_rhs kind base
    have hfamily := Registry.mem_familyTable.2 ⟨kind, base, hbase, hp⟩
    exact (exists_lhs_iff hlooks).1 (hclosed p (List.mem_append_right _ hfamily) base hmem hlooks)
  · intro hbases p hp symbol hs hlooks
    rcases List.mem_append.1 hp with hline | hfamily
    · exact exists_lhs_of_mem_line h hproblem hline hs hlooks
    · obtain ⟨kind, base, hbase, hderived⟩ := Registry.mem_familyTable.1 hfamily
      rw [exists_lhs_iff hlooks]
      rcases Registry.mem_rhs_of_mem_derivedProductions hderived hs with rfl | rfl | rfl
      · exact hbases kind symbol hbase hlooks
      · exact absurd rfl (hlooks.1 '\'' rfl).1
      · exact .inr ⟨kind, base, hbase, rfl⟩

end Derivation

open Lexer ParserGenerator.Derivation

variable {V : Type} [SemanticValue V]

/-- A module that has been generated registers the lines of the file and the productions of all its
families. Every symbol of a line that looks derived has a production. All symbols that look derived
have one exactly if each base of a family that looks derived is defined by a clause or derived by a
family; the check before generation does not look at that. -/
theorem closed_register_iff {source text : String} {o : Options}
    (h : compile source o = .ok text) (handler : String → Handler V) :
    (∃ file : File, file.tokens = tokensOf (delivered source)) ∧
    ∀ file : File, file.tokens = tokensOf (delivered source) →
      let g := file.grammar.request o.families
      let registered := file.lineProductions ++ Registry.familyTable g.families
      Module.generate g o = .ok text ∧
      ((Definition.register g handler).answer = .ok () →
        (Definition.register g handler).registry.productions = registered) ∧
      (∀ p ∈ file.lineProductions, ∀ symbol ∈ p.rhs, g.LooksDerived symbol →
        ∃ q ∈ registered, q.lhs = symbol) ∧
      (g.Closed registered ↔ ∀ kind, ∀ base ∈ g.families.get kind, g.LooksDerived base →
        file.Defines base ∨ g.Derives base) := by
  obtain ⟨hexists, hgenerate⟩ := derivation_of_compile h
  refine ⟨hexists, ?_⟩
  intro file hfile g registered
  have hshaped := allShaped_of_tokens hfile
  have hproblem : g.problem? = none := Module.problem?_of_generate (hgenerate file hfile)
  refine ⟨hgenerate file hfile, ?_, ?_, closed_iff hshaped hproblem⟩
  · intro hok
    exact ((productions?_register_eq_some_iff hshaped hproblem handler _).1
      (Registration.productions?_eq_some.2 ⟨⟨(), hok⟩, rfl⟩)).2.2
  · intro p hp symbol hs hlooks
    exact exists_lhs_of_mem_line hshaped hproblem hp hs hlooks

/-- A family of a family, a token with the name of a family, and a family of a symbol that is defined
by hand. -/
theorem closed_register_iff_nested :
    let source := "%token t_list\n%%\nx : [<a>] [t_list] b_opt 'q_opt' ;\nb_opt : c ;\n%%\n"
    let o : Options := { families := [(.string, "b_opt")] }
    let file : File :=
      { header := some ⟨[.declaration .tokens none ⟨.identifier "t_list", none⟩ [] false], none⟩
        clauses := [⟨"x", [.reference (.wrapped .optional (.wrapped .list (.plain "a"))),
            .reference (.wrapped .optional (.plain "t_list")), .reference (.plain "b_opt"),
            .quoted "'q_opt'"], []⟩,
          ⟨"b_opt", [.reference (.plain "c")], []⟩]
        tail := some "\n"
        starts_with_rule := nofun }
    let g := file.grammar.request o.families
    let handler := fun _ : String ↦ (Handler.absent : Handler Value)
    (∃ text, compile source o = .ok text) ∧ file.tokens = tokensOf (delivered source) ∧
      (Definition.register g handler).answer = .ok () ∧
      g.Closed (Definition.register g handler).registry.productions := by
  intro source o file g handler
  obtain ⟨text, htext⟩ : ∃ text, compile source o = .ok text :=
    exists_compile rfl (by decide +kernel)
  have hfile : file.tokens = tokensOf (delivered source) := by decide +kernel
  have hok : (Definition.register g handler).answer = .ok () := by decide +kernel
  obtain ⟨-, hproductions, -, hclosed⟩ := (closed_register_iff htext handler).2 file hfile
  refine ⟨⟨text, htext⟩, hfile, hok, ?_⟩
  rw [hproductions hok]
  apply hclosed.2
  intro kind base hbase hlooks
  cases kind with
  | optional =>
    have hnames : (g.families.get .optional).names = ["a_list", "t_list"] := by decide +kernel
    rw [NameSet.mem_def, hnames, List.mem_pair] at hbase
    obtain rfl | rfl := hbase
    · exact .inr ⟨.list, "a", by decide +kernel, by decide⟩
    · exact absurd (by decide +kernel) hlooks.2.1
  | list =>
    have hnames : (g.families.get .list).names = ["a"] := by decide +kernel
    rw [NameSet.mem_def, hnames] at hbase
    exact absurd (List.mem_singleton.1 hbase) (hlooks.ne (by decide))
  | string =>
    have hnames : (g.families.get .string).names = ["b_opt"] := by decide +kernel
    rw [NameSet.mem_def, hnames] at hbase
    obtain rfl := List.mem_singleton.1 hbase
    exact .inl (by decide +kernel)

/-- An optional `a_opt` compiles, and its production holds `a_opt`, which nothing produces. A rule
that uses `a_opt` without the wrapper is refused. -/
theorem not_closed_after_compile :
    let source := "%%\nx : [a_opt] ;\n%%\n"
    let file : File :=
      { header := some ⟨[], none⟩
        clauses := [⟨"x", [.reference (.wrapped .optional (.plain "a_opt"))], []⟩]
        tail := some "\n"
        starts_with_rule := nofun }
    let registered := (Definition.register file.grammar
      fun _ ↦ (Handler.absent : Handler Value)).registry.productions
    (∃ text, compile source {} = .ok text) ∧ file.tokens = tokensOf (delivered source) ∧
      ⟨"p_a_opt_opt_2", "a_opt_opt", ["a_opt"], none⟩ ∈ registered ∧
      file.grammar.LooksDerived "a_opt" ∧
      (∀ q ∈ registered, q.lhs ≠ "a_opt") ∧
      compile "%%\nx : a_opt ;\n%%\n" {} =
        .error (.generate (.unregistered "x" "a_opt" "a" .optional)) := by
  intro source file registered
  refine ⟨exists_compile rfl (by decide +kernel), by decide +kernel, by decide +kernel, ?_,
    by decide +kernel, compile_eq_error rfl (by decide +kernel)⟩
  exact ⟨by simp, by decide +kernel, .optional, "a", by decide, by decide⟩

end ParserGenerator
