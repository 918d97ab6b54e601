import ParserGenerator.Proofs.Module.Standard
import ParserGenerator.Proofs.Registry.Agreement
import ParserGenerator.Proofs.Registry.Families

/-!
# Constructing the registry of a module

A source that compiles has a derivation, and the registry of its module can be constructed exactly
if every precedence mark has a name to take and no rule has the name of a derived production. The
registry then holds the productions of the alternatives, the one for the empty text and those of the
families, each under a name of its own.
-/

namespace ParserGenerator

/-! ## Checks -/

theorem FamilyKind.mem_all (kind : FamilyKind) : kind ∈ FamilyKind.all := by
  cases kind <;> decide

namespace Grammar

theorem nodup_of_firstRepeated {seen names : List String} (h : firstRepeated seen names = none) :
    names.Nodup ∧ ∀ name ∈ names, name ∉ seen := by
  induction names generalizing seen with
  | nil => simp
  | cons name names ih =>
    unfold firstRepeated at h
    split at h
    · simp at h
    · next hname =>
      obtain ⟨hnodup, hseen⟩ := ih h
      constructor
      · apply List.nodup_cons.2
        refine ⟨?_, hnodup⟩
        intro hmem
        exact hseen name hmem List.mem_cons_self
      · intro other hother
        rcases List.mem_cons.1 hother with rfl | hlater
        · exact hname
        · intro hmem
          exact hseen other hlater (List.mem_cons_of_mem _ hmem)

theorem defines_derived_of_firstCollision {g : Grammar} (h : g.firstCollision = none)
    {kind : FamilyKind} {base : String} (hbase : base ∈ (g.families.get kind).names) :
    g.defines (kind.derived base) = false := by
  have hnone := List.findSome?_eq_none_iff.1
    (List.findSome?_eq_none_iff.1 h kind kind.mem_all) base hbase
  split at hnone
  · simp at hnone
  · next hdefines => simpa using hdefines

/-- A grammar has no problem only if every check passes. -/
theorem checks_of_problem?_eq_none {g : Grammar} (h : g.problem? = none) :
    firstRepeated [] (g.rules.map Rule.name) = none ∧ g.firstCollision = none ∧
      g.firstUnregistered = none := by
  unfold problem? at h
  split at h
  · simp at h
  · split at h
    · simp at h
    · next hrepeated => exact ⟨hrepeated, by simpa using h⟩

/-- A grammar without problems has a handler for each rule and no rule for a derived symbol. -/
theorem of_problem?_eq_none {g : Grammar} (h : g.problem? = none) :
    (g.rules.map Rule.name).Nodup ∧
      ∀ kind, ∀ base ∈ (g.families.get kind).names, g.defines (kind.derived base) = false := by
  obtain ⟨hrepeated, hcollision, -⟩ := checks_of_problem?_eq_none h
  exact ⟨(nodup_of_firstRepeated hrepeated).1,
    fun _ _ hbase ↦ defines_derived_of_firstCollision hcollision hbase⟩

end Grammar

theorem Module.problem?_of_generate {g : Grammar} {o : Options} {text : String}
    (h : generate g o = .ok text) : g.problem? = none := by
  unfold generate at h
  split at h
  · simp at h
  · split at h
    · simp at h
    · split at h
      · simp at h
      · assumption

open Lexer ParserGenerator.Derivation

/-- A source that compiles has a derivation, and its module is generated from the grammar of the
derivation with the requested families. -/
theorem derivation_of_compile {source text : String} {o : Options}
    (h : compile source o = .ok text) :
    (∃ file : File, file.tokens = tokensOf (delivered source)) ∧
      ∀ file : File, file.tokens = tokensOf (delivered source) →
        Module.generate (file.grammar.request o.families) o = .ok text := by
  unfold compile at h
  split at h
  · simp at h
  · next parsed hparsed =>
    obtain ⟨hfailures, file, hfile, -⟩ := (Grammar.parse_eq_ok_iff source parsed).1 hparsed
    refine ⟨⟨file, hfile⟩, ?_⟩
    intro other hother
    have hresult := (Grammar.parse_eq_ok_iff source _).2 ⟨hfailures, other, hother, rfl⟩
    obtain rfl := Except.ok.inj (hparsed.symm.trans hresult)
    split at h
    · simp at h
    · split at h
      · simp at h
      · next hgenerate => rw [hgenerate, Except.ok.inj h]

/-! ## Lines -/

namespace Derivation

/-- The production for the empty text. -/
def emptyProduction : Production := ⟨"p_empty", "empty", [], none⟩

/-- A clause of the file defines a symbol. -/
def File.Defines (f : File) (symbol : String) : Prop := ∃ c ∈ f.clauses, c.lhs = symbol

instance (f : File) (symbol : String) : Decidable (f.Defines symbol) :=
  inferInstanceAs (Decidable (∃ c ∈ f.clauses, c.lhs = symbol))

/-- The productions of the lines of a file: one for each alternative, and the one for the empty text
unless a clause defines it. -/
def File.lineProductions (f : File) : List Production :=
  f.places.map Place.production ++ if f.Defines "empty" then [] else [emptyProduction]

/-- The numbered name of an alternative ends with a digit. -/
theorem Clause.lhs_of_nameOf_eq_empty {c : Clause} {index : Nat} (h : c.nameOf index = "empty") :
    c.lhs = "empty" := by
  unfold Clause.nameOf at h
  split at h
  · exact h
  · have hlist : c.lhs.toList ++ '_' :: Nat.toDigits 10 (index + 1) = "empty".toList := by
      rw [← h]
      simp [toString]
    have hsome : (Nat.toDigits 10 (index + 1)).getLast?.isSome = true :=
      List.getLast?_isSome.2 Nat.toDigits_ne_nil
    obtain ⟨digit, hdigit⟩ := Option.isSome_iff_exists.1 hsome
    have hlast : some digit = some 'y' := by
      have hends := congrArg List.getLast? hlist
      simpa [List.getLast?_cons, hdigit] using hends
    have hisDigit := Nat.isDigit_of_mem_toDigits (by omega) (by omega)
      (List.mem_of_getLast? hdigit)
    obtain rfl := Option.some.inj hlast
    cases hisDigit

section Shaped

variable {f : File} (h : AllShaped f.tokens)

include h

theorem defines_eq (families : List (FamilyKind × String)) (symbol : String) :
    (f.grammar.request families).defines symbol = decide (f.Defines symbol) := by
  have hrules : (f.grammar.request families).rules = f.places.map Place.rule := f.rules_eq_map
  rw [Bool.eq_iff_iff, Grammar.defines, hrules, List.any_eq_true, decide_eq_true_eq]
  constructor
  · rintro ⟨r, hr, hlhs⟩
    obtain ⟨p, hp, rfl⟩ := List.mem_map.1 hr
    rw [Place.lhs_rule h hp, decide_eq_true_eq] at hlhs
    exact ⟨p.clause, (File.mem_places hp).1, hlhs⟩
  · rintro ⟨c, hc, rfl⟩
    obtain ⟨p, hp, rfl⟩ := File.exists_place hc
    exact ⟨p.rule, List.mem_map.2 ⟨p, hp, rfl⟩, by simp [Place.lhs_rule h hp]⟩

end Shaped

/-- Reading lines of which each is known to be readable under a condition. -/
theorem mapM_eq_ite {α β : Type} {l : List α} {q : α → Prop} [DecidablePred q] {f : α → Option β}
    {g : α → β} (h : ∀ x ∈ l, f x = if q x then some (g x) else none) :
    l.mapM f = if ∀ x ∈ l, q x then some (l.map g) else none := by
  induction l with
  | nil => simp
  | cons x l ih =>
    rw [List.mapM_cons, h x List.mem_cons_self, ih fun y hy ↦ h y (List.mem_cons_of_mem _ hy)]
    by_cases hx : q x
    · by_cases hl : ∀ y ∈ l, q y
      · rw [if_pos hx, if_pos hl, if_pos (List.forall_mem_cons.2 ⟨hx, hl⟩)]
        rfl
      · rw [if_pos hx, if_neg hl, if_neg fun hall ↦ hl (List.forall_mem_cons.1 hall).2]
        rfl
    · rw [if_neg hx, if_neg fun hall ↦ hx (List.forall_mem_cons.1 hall).1]
      rfl

theorem parse_emptyEntry :
    Production.parse Module.emptyEntry.handler Module.emptyEntry.production =
      .ok emptyProduction := by
  have hname : IsName "empty" := ⟨'e', ['m', 'p', 't', 'y'], by decide, by decide, by decide⟩
  have hline : Module.emptyEntry.production = Production.lineOf "empty" [] := by decide
  rw [hline, Production.parse_lineOf hname.isHead (by simp)]
  rfl

/-- The production of an entry, if its line can be read. -/
def readEntry (e : Module.Entry) : Option Production :=
  (Production.parse e.handler e.production).toOption

theorem entries_eq {f : File} (h : AllShaped f.tokens) (families : List (FamilyKind × String)) :
    Module.entries (f.grammar.request families) =
      f.places.map (fun p ↦ .ofRule p.rule) ++
        if f.Defines "empty" then [] else [Module.emptyEntry] := by
  have hrules : (f.grammar.request families).rules = f.places.map Place.rule := f.rules_eq_map
  unfold Module.entries
  rw [hrules, List.map_map, defines_eq h]
  by_cases hempty : f.Defines "empty"
  · simp [hempty, Module.emptyName, Function.comp_def]
  · simp [hempty, Module.emptyName, Function.comp_def]

variable {V : Type} {f : File} {families : List (FamilyKind × String)}

/-- The lines of a file can be read exactly if every precedence mark has a name to take. -/
theorem readLines_linesOf (h : AllShaped f.tokens) (handler : String → Handler V) :
    Registry.readLines (Definition.linesOf (f.grammar.request families) handler) =
      if ∀ p ∈ f.places, p.MarksTaken then some f.lineProductions else none := by
  have hentries : Registry.readLines (Definition.linesOf (f.grammar.request families) handler) =
      (Module.entries (f.grammar.request families)).mapM readEntry := List.mapM_map ..
  have hplaces : (f.places.map fun p ↦ Module.Entry.ofRule p.rule).mapM readEntry =
      if ∀ p ∈ f.places, p.MarksTaken then some (f.places.map Place.production) else none := by
    rw [List.mapM_map]
    exact mapM_eq_ite fun p hp ↦ Place.parse_rule h hp
  have hempty : [Module.emptyEntry].mapM readEntry = some [emptyProduction] := by
    simp [readEntry, parse_emptyEntry, Except.toOption]
  rw [hentries, entries_eq h, List.mapM_append, hplaces, File.lineProductions]
  by_cases hmarks : ∀ p ∈ f.places, p.MarksTaken
  · rw [if_pos hmarks, if_pos hmarks]
    split
    · rfl
    · rw [hempty]
      rfl
  · rw [if_neg hmarks, if_neg hmarks]
    rfl

theorem map_fst_linesOf (h : AllShaped f.tokens) (handler : String → Handler V) :
    (Definition.linesOf (f.grammar.request families) handler).map (·.1) =
      f.lineProductions.map Production.name := by
  unfold Definition.linesOf File.lineProductions
  rw [entries_eq h, List.map_map, List.map_append, List.map_append, List.map_map, List.map_map]
  congr 1
  split <;> rfl

/-- Every line of a file without problems has a name of its own. -/
theorem nodup_names_lineProductions (hproblem : (f.grammar.request families).problem? = none) :
    (f.lineProductions.map Production.name).Nodup := by
  have hrules : (f.grammar.request families).rules = f.places.map Place.rule := f.rules_eq_map
  have hnames : (f.places.map fun p ↦ p.rule.handler).Nodup := by
    have hnodup := (Grammar.of_problem?_eq_none hproblem).1
    rw [hrules, List.map_map] at hnodup
    have hhandler := hnodup.map fun a b (heq : "p_" ++ a = "p_" ++ b) ↦
      (String.append_right_inj "p_").1 heq
    rwa [List.map_map] at hhandler
  unfold File.lineProductions
  rw [List.map_append, List.map_map]
  split
  · rw [List.map_nil, List.append_nil]
    exact hnames
  · next hempty =>
    apply List.nodup_append.2
    refine ⟨hnames, by simp, ?_⟩
    rintro name hname other hother rfl
    obtain ⟨p, hp, hpname⟩ := List.mem_map.1 hname
    have hother : name = "p_" ++ "empty" := List.mem_singleton.1 hother
    have hnameOf : p.clause.nameOf p.index = "empty" :=
      (String.append_right_inj "p_").1 (hpname.trans hother)
    exact hempty ⟨p.clause, (File.mem_places hp).1, Clause.lhs_of_nameOf_eq_empty hnameOf⟩

/-! ## The registry -/

/-- No rule has the name of a production that a registered family derives. -/
def NoClash (g : Grammar) : Prop :=
  ∀ kind, ∀ base ∈ (g.families.get kind).names, ∀ r ∈ g.rules,
    r.name ≠ kind.derived base ++ "_1" ∧ r.name ≠ kind.derived base ++ "_2"

theorem emptyName_not_mem_derivedNames (derived : String) :
    "p_empty" ∉ Registry.derivedNames derived := by
  intro h
  simp only [Registry.derivedNames, List.mem_cons, List.not_mem_nil, or_false] at h
  rcases h with h | h
  · have hlast := congrArg (fun s : String ↦ s.toList.reverse.head?) h
    simp at hlast
  · have hlast := congrArg (fun s : String ↦ s.toList.reverse.head?) h
    simp at hlast

theorem mem_names_lineProductions {derived name : String}
    (hname : name ∈ Registry.derivedNames derived) :
    name ∈ f.lineProductions.map Production.name ↔
      ∃ r ∈ (f.grammar.request families).rules, "p_" ++ r.name = name := by
  have hrules : (f.grammar.request families).rules = f.places.map Place.rule := f.rules_eq_map
  have hempty : name ∉ (if f.Defines "empty" then [] else [emptyProduction]).map
      Production.name := by
    split
    · simp
    · intro hmem
      obtain rfl := List.mem_singleton.1 hmem
      exact emptyName_not_mem_derivedNames derived hname
  rw [File.lineProductions, List.map_append, List.mem_append, or_iff_left hempty, hrules]
  simp only [List.mem_map]
  constructor
  · rintro ⟨q, ⟨p, hp, rfl⟩, rfl⟩
    exact ⟨p.rule, ⟨p, hp, rfl⟩, rfl⟩
  · rintro ⟨r, ⟨p, hp, rfl⟩, rfl⟩
    exact ⟨p.production, ⟨p, hp, rfl⟩, rfl⟩

/-- The names of the families are free exactly if no rule has one of them. -/
theorem names_free_iff_noClash :
    (∀ p ∈ Registry.familyTable (f.grammar.request families).families,
      p.name ∉ f.lineProductions.map Production.name) ↔ NoClash (f.grammar.request families) := by
  constructor
  · intro hfree kind base hbase r hr
    have hne (name : String) (hname : name ∈ Registry.derivedNames (kind.derived base)) :
        "p_" ++ r.name ≠ name := by
      intro heq
      obtain ⟨p, hp, rfl⟩ := List.mem_map.1
        (Registry.mem_names_familyTable.2 ⟨kind, base, hbase, hname⟩)
      exact hfree p hp ((mem_names_lineProductions hname).2 ⟨r, hr, heq⟩)
    constructor
    · intro heq
      exact hne _ (by simp [Registry.derivedNames]) (congrArg ("p_" ++ ·) heq)
    · intro heq
      exact hne _ (by simp [Registry.derivedNames]) (congrArg ("p_" ++ ·) heq)
  · intro hclash p hp hmem
    obtain ⟨kind, base, hbase, hname⟩ :=
      Registry.mem_names_familyTable.1 (List.mem_map.2 ⟨p, hp, rfl⟩)
    obtain ⟨r, hr, heq⟩ := (mem_names_lineProductions hname).1 hmem
    obtain ⟨hone, htwo⟩ := hclash kind base hbase r hr
    simp only [Registry.derivedNames, List.mem_cons, List.not_mem_nil, or_false] at hname
    rcases hname with hname | hname
    · exact hone ((String.append_right_inj "p_").1 (heq.trans hname))
    · exact htwo ((String.append_right_inj "p_").1 (heq.trans hname))

/-- A production of a line that shares its name with a derived one has another left-hand side. -/
theorem lhs_ne_of_name_eq (h : AllShaped f.tokens)
    (hproblem : (f.grammar.request families).problem? = none) {p q : Production}
    (hp : p ∈ Registry.familyTable (f.grammar.request families).families)
    (hq : q ∈ f.lineProductions) (hname : q.name = p.name) : q.lhs ≠ p.lhs := by
  obtain ⟨kind, base, hbase, hderived⟩ := Registry.mem_familyTable.1 hp
  have hundefined := (Grammar.of_problem?_eq_none hproblem).2 kind base hbase
  rw [defines_eq h, decide_eq_false_iff_not] at hundefined
  rw [Registry.lhs_of_mem_derivedProductions hderived]
  rcases List.mem_append.1 hq with hline | hempty
  · obtain ⟨place, hplace, rfl⟩ := List.mem_map.1 hline
    exact fun heq ↦ hundefined ⟨place.clause, (File.mem_places hplace).1, heq⟩
  · have hnames : p.name ∈ Registry.derivedNames (kind.derived base) := by
      rw [← Registry.map_name_derivedProductions]
      exact List.mem_map.2 ⟨p, hderived, rfl⟩
    split at hempty
    · simp at hempty
    · obtain rfl := List.mem_singleton.1 hempty
      rw [← hname] at hnames
      exact absurd hnames (emptyName_not_mem_derivedNames _)

variable [SemanticValue V]

/-- The registry of a module can be constructed exactly if every precedence mark has a name to take
and no rule has the name of a derived production. -/
theorem productions?_register_eq_some_iff (h : AllShaped f.tokens)
    (hproblem : (f.grammar.request families).problem? = none) (handler : String → Handler V)
    (out : List Production) :
    (Definition.register (f.grammar.request families) handler).productions? = some out ↔
      (∀ p ∈ f.places, p.MarksTaken) ∧ NoClash (f.grammar.request families) ∧
        out = f.lineProductions ++
          Registry.familyTable (f.grammar.request families).families := by
  have htable := Registry.flatMap_productionsOf (f.grammar.request families).families
  have hread := @readLines_linesOf V f families h handler
  have hlines : ((Definition.linesOf (f.grammar.request families) handler).map (·.1)).Nodup := by
    rw [map_fst_linesOf h]
    exact nodup_names_lineProductions hproblem
  have hnames : (((Registry.familiesOf (f.grammar.request families).families).flatMap
      Registry.productionsOf).map Production.name).Nodup := by
    rw [htable]
    exact Registry.nodup_names_familyTable _
  have hshape (ps : List Production)
      (hps : Registry.readLines (Definition.linesOf (f.grammar.request families) handler) =
        some ps) :
      ∀ p ∈ (Registry.familiesOf (f.grammar.request families).families).flatMap
        Registry.productionsOf, ∀ q ∈ ps, q.name = p.name → q.lhs ≠ p.lhs := by
    intro p hp q hq
    rw [htable] at hp
    rw [hread] at hps
    split at hps
    · obtain rfl := Option.some.inj hps
      exact lhs_ne_of_name_eq h hproblem hp hq
    · simp at hps
  rw [Definition.register, Registry.productions?_load_eq_some_iff hlines
    (Registry.nodup_familiesOf _) hnames hshape, hread, htable]
  constructor
  · rintro ⟨ps, hps, hfree, rfl⟩
    split at hps
    · next hmarks =>
      obtain rfl := Option.some.inj hps
      exact ⟨hmarks, names_free_iff_noClash.1 hfree, rfl⟩
    · simp at hps
  · rintro ⟨hmarks, hclash, rfl⟩
    exact ⟨f.lineProductions, if_pos hmarks, names_free_iff_noClash.2 hclash, rfl⟩

theorem nodup_names_register (hproblem : (f.grammar.request families).problem? = none)
    (hclash : NoClash (f.grammar.request families)) :
    ((f.lineProductions ++ Registry.familyTable (f.grammar.request families).families).map
      Production.name).Nodup := by
  rw [List.map_append]
  apply List.nodup_append.2
  refine ⟨nodup_names_lineProductions hproblem, Registry.nodup_names_familyTable _, ?_⟩
  rintro name hline other hfamily rfl
  obtain ⟨p, hp, rfl⟩ := List.mem_map.1 hfamily
  exact names_free_iff_noClash.2 hclash p hp hline

theorem length_register (sets : FamilySets) :
    (f.lineProductions ++ Registry.familyTable sets).length =
      f.grammar.rules.length + (if f.Defines "empty" then 0 else 1) +
        2 * (sets.list.names.length + sets.string.names.length + sets.optional.names.length) := by
  rw [List.length_append, Registry.length_familyTable, f.rules_eq_map, File.lineProductions]
  split <;> simp

end Derivation

open ParserGenerator.Derivation

variable {V : Type} [SemanticValue V]

/-- The registry of a module that has been generated can be constructed exactly if every precedence
mark of every alternative has a name to take and no rule has the name of a derived production. -/
theorem register_ok_iff {source text : String} {o : Options} (h : compile source o = .ok text)
    (handler : String → Handler V) :
    (∃ file : File, file.tokens = tokensOf (delivered source)) ∧
    ∀ file : File, file.tokens = tokensOf (delivered source) →
      Module.generate (file.grammar.request o.families) o = .ok text ∧
      ((Definition.register (file.grammar.request o.families) handler).answer = .ok () ↔
        (∀ p ∈ file.places, p.MarksTaken) ∧ NoClash (file.grammar.request o.families)) := by
  obtain ⟨hexists, hgenerate⟩ := derivation_of_compile h
  refine ⟨hexists, ?_⟩
  intro file hfile
  refine ⟨hgenerate file hfile, ?_⟩
  have hproblem := Module.problem?_of_generate (hgenerate file hfile)
  have hregister := productions?_register_eq_some_iff (allShaped_of_tokens hfile) hproblem handler
  constructor
  · intro hok
    obtain ⟨hmarks, hclash, -⟩ :=
      (hregister _).1 (Registration.productions?_eq_some.2 ⟨⟨(), hok⟩, rfl⟩)
    exact ⟨hmarks, hclash⟩
  · rintro ⟨hmarks, hclash⟩
    obtain ⟨⟨_, hok⟩, -⟩ :=
      Registration.productions?_eq_some.1 ((hregister _).2 ⟨hmarks, hclash, rfl⟩)
    exact hok

/-- A borrowed precedence and a requested family do not stand in the way. -/
theorem register_ok_iff_borrowed :
    let source := "%%\nx : [a] %prec U b ;\n%%\n"
    let o : Options := { families := [(.list, "x")] }
    let file : File :=
      { header := some ⟨[], none⟩
        clauses := [⟨"x", [.reference (.wrapped .optional (.plain "a")), .prec,
          .reference (.plain "U"), .reference (.plain "b")], []⟩]
        tail := some "\n"
        starts_with_rule := nofun }
    (∃ text, compile source o = .ok text) ∧ file.tokens = tokensOf (delivered source) ∧
      (∀ p ∈ file.places, p.MarksTaken) ∧ NoClash (file.grammar.request o.families) ∧
      (Definition.register (file.grammar.request o.families)
        fun _ ↦ (Handler.absent : Handler Value)).answer = .ok () := by
  intro source o file
  obtain ⟨text, htext⟩ : ∃ text, compile source o = .ok text :=
    exists_compile rfl (by decide +kernel)
  have hfile : file.tokens = tokensOf (delivered source) := by decide +kernel
  have hmarks : ∀ p ∈ file.places, p.MarksTaken := by decide +kernel
  have hclash : NoClash (file.grammar.request o.families) := by
    intro kind
    cases kind <;> decide +kernel
  exact ⟨⟨text, htext⟩, hfile, hmarks, hclash,
    ((register_ok_iff htext _).2 file hfile).2.2 ⟨hmarks, hclash⟩⟩

/-- A mark without a name, and a rule with the name of a derived production: both sources compile,
and neither registry can be constructed. -/
theorem register_fails_after_compile :
    let unfinished := "%%\nx : a %prec ;\n%%\n"
    let unfinishedFile : File :=
      { header := some ⟨[], none⟩
        clauses := [⟨"x", [.reference (.plain "a"), .prec], []⟩]
        tail := some "\n"
        starts_with_rule := nofun }
    let clashing := "%%\nx : [a] ;\na_opt_1 : b ;\n%%\n"
    let clashingFile : File :=
      { header := some ⟨[], none⟩
        clauses := [⟨"x", [.reference (.wrapped .optional (.plain "a"))], []⟩,
          ⟨"a_opt_1", [.reference (.plain "b")], []⟩]
        tail := some "\n"
        starts_with_rule := nofun }
    let handler := fun _ : String ↦ (Handler.absent : Handler Value)
    ((∃ text, compile unfinished {} = .ok text) ∧
      unfinishedFile.tokens = tokensOf (delivered unfinished) ∧
      (Definition.register unfinishedFile.grammar handler).answer =
        .error (.malformed "p_x" "x : a %prec")) ∧
    (∃ text, compile clashing {} = .ok text) ∧
      clashingFile.tokens = tokensOf (delivered clashing) ∧
      (Definition.register clashingFile.grammar handler).answer =
        .error (.duplicate "p_a_opt_1" "a_opt_1 : b") := by
  intro unfinished unfinishedFile clashing clashingFile handler
  refine ⟨⟨?_, by decide +kernel, by decide +kernel⟩, ?_, by decide +kernel, by decide +kernel⟩
  · exact exists_compile rfl (by decide +kernel)
  · exact exists_compile rfl (by decide +kernel)

/-- The registry of a module holds the productions of the alternatives in the order of the text, the
production for the empty text unless a clause defines it, and the two productions of each list,
string and optional family. No two of them share a name. -/
theorem productions_register {source text : String} {o : Options} (h : compile source o = .ok text)
    (handler : String → Handler V) :
    (∃ file : File, file.tokens = tokensOf (delivered source)) ∧
    ∀ file : File, file.tokens = tokensOf (delivered source) →
      let g := file.grammar.request o.families
      let registered := Definition.register g handler
      (∀ p ∈ file.places, p.MarksTaken) → NoClash g →
        Module.generate g o = .ok text ∧
        registered.answer = .ok () ∧
        registered.registry.productions =
          file.places.map Place.production ++
          (if file.Defines "empty" then [] else [⟨"p_empty", "empty", [], none⟩]) ++
          (g.families.list.names.flatMap (Registry.derivedProductions .list) ++
            g.families.string.names.flatMap (Registry.derivedProductions .string) ++
            g.families.optional.names.flatMap (Registry.derivedProductions .optional)) ∧
        (registered.registry.productions.map Production.name).Nodup ∧
        registered.registry.size =
          g.rules.length + (if file.Defines "empty" then 0 else 1) +
            2 * (g.families.list.names.length + g.families.string.names.length +
              g.families.optional.names.length) := by
  obtain ⟨hexists, hgenerate⟩ := derivation_of_compile h
  refine ⟨hexists, ?_⟩
  intro file hfile g registered hmarks hclash
  have hproblem := Module.problem?_of_generate (hgenerate file hfile)
  have hregister := productions?_register_eq_some_iff (allShaped_of_tokens hfile) hproblem handler
  obtain ⟨⟨_, hok⟩, hproductions⟩ :=
    Registration.productions?_eq_some.1 ((hregister _).2 ⟨hmarks, hclash, rfl⟩)
  refine ⟨hgenerate file hfile, hok, hproductions, ?_, ?_⟩
  · rw [hproductions]
    exact nodup_names_register hproblem hclash
  · have hsize : registered.registry.size = registered.registry.productions.length :=
      (List.length_map _).symm
    rw [hsize, hproductions, length_register]
    rfl

/-- Three alternatives, the empty text and four families make twelve productions. -/
theorem productions_register_nested :
    let source := "%token U\n%%\nx : [<a>] 'b c' | y %prec U ;\ny : (x) ;\n%%\n"
    let o : Options := { families := [(.list, "y")] }
    let file : File :=
      { header := some ⟨[.declaration .tokens none ⟨.identifier "U", none⟩ [] false], none⟩
        clauses := [⟨"x", [.reference (.wrapped .optional (.wrapped .list (.plain "a"))),
            .quoted "'b c'"], [[.reference (.plain "y"), .prec, .reference (.plain "U")]]⟩,
          ⟨"y", [.reference (.wrapped .string (.plain "x"))], []⟩]
        tail := some "\n"
        starts_with_rule := nofun }
    let registered := Definition.register (file.grammar.request o.families)
      fun _ ↦ (Handler.absent : Handler Value)
    (∃ text, compile source o = .ok text) ∧ file.tokens = tokensOf (delivered source) ∧
      (∀ p ∈ file.places, p.MarksTaken) ∧ NoClash (file.grammar.request o.families) ∧
      registered.answer = .ok () ∧ registered.registry.size = 12 ∧
      (registered.registry.productions.map Production.name).Nodup := by
  intro source o file registered
  obtain ⟨text, htext⟩ : ∃ text, compile source o = .ok text :=
    exists_compile rfl (by decide +kernel)
  have hfile : file.tokens = tokensOf (delivered source) := by decide +kernel
  have hmarks : ∀ p ∈ file.places, p.MarksTaken := by decide +kernel
  have hclash : NoClash (file.grammar.request o.families) := by
    intro kind
    cases kind <;> decide +kernel
  obtain ⟨-, hok, -, hnodup, hsize⟩ := (productions_register htext fun _ ↦
    (Handler.absent : Handler Value)).2 file hfile hmarks hclash
  exact ⟨⟨text, htext⟩, hfile, hmarks, hclash, hok, hsize, hnodup⟩

end ParserGenerator
