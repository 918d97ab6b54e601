import ParserGenerator.Proofs.Registry.History

/-!
# The handlers of a loaded registry

A registry that is loaded from lines and families finds under the name of a line the handler of that
line, and under the names of a family the two handlers of the family, unless a line and a family
share a name.
-/

namespace ParserGenerator

namespace Registry

variable {V : Type} {reg reg' reg'' : Registry V} {Q Q' : Registered V → Prop}

/-- Every entry of the second registry is one of the first, or `Q` holds of it. -/
def AddsOnly (Q : Registered V → Prop) (reg reg' : Registry V) : Prop :=
  ∀ e ∈ reg'.entries, e ∈ reg.entries ∨ Q e

theorem AddsOnly.refl (Q : Registered V → Prop) (reg : Registry V) : AddsOnly Q reg reg :=
  fun _ ↦ .inl

theorem AddsOnly.mono (h : AddsOnly Q reg reg') (hQ : ∀ e, Q e → Q' e) : AddsOnly Q' reg reg' :=
  fun e he ↦ (h e he).imp_right (hQ e)

theorem AddsOnly.trans (h : AddsOnly Q reg reg') (h' : AddsOnly Q reg' reg'') :
    AddsOnly Q reg reg'' := by
  intro e he
  obtain hbefore | hnew := h' e he
  · exact h e hbefore
  · exact .inr hnew

theorem addsOnly_insert (reg : Registry V) (p : Production) (handler : Handler V) :
    AddsOnly (· = ⟨p, handler⟩) reg (reg.insert p handler).registry := by
  obtain ⟨-, -, hreg⟩ | ⟨-, -, -, hreg, -⟩ := insert_cases reg p handler
  · rw [hreg]
    intro e he
    simpa using he
  · rw [hreg]
    exact .refl _ reg

/-! ## Lines -/

/-- The entry has the name and the handler of one of the lines. -/
def FromLine (lines : List (String × String × Handler V)) (e : Registered V) : Prop :=
  ∃ l ∈ lines, l.1 = e.production.name ∧ l.2.2 = e.handler

theorem addsOnly_define (reg : Registry V) (l : String × String × Handler V) :
    AddsOnly (FromLine [l]) reg (reg.define l.1 l.2.1 l.2.2).registry := by
  unfold define
  cases hparse : Production.parse l.1 l.2.1 with
  | error e => exact .refl _ reg
  | ok p =>
    apply (addsOnly_insert reg p l.2.2).mono
    rintro _ rfl
    exact ⟨l, List.mem_singleton_self l, (name_of_parse hparse).symm, rfl⟩

theorem addsOnly_defineAll (reg : Registry V) (lines : List (String × String × Handler V)) :
    AddsOnly (FromLine lines) reg (reg.defineAll lines).registry := by
  induction lines generalizing reg with
  | nil => exact .refl _ reg
  | cons l lines ih =>
    have hfirst : AddsOnly (FromLine (l :: lines)) reg (reg.define l.1 l.2.1 l.2.2).registry := by
      apply (addsOnly_define reg l).mono
      rintro e ⟨l', hl', h⟩
      exact ⟨l', List.mem_cons.2 (.inl (List.mem_singleton.1 hl')), h⟩
    apply Registration.registry_andThen hfirst
    intro _
    apply hfirst.trans
    apply (ih _).mono
    rintro e ⟨l', hl', h⟩
    exact ⟨l', List.mem_cons_of_mem _ hl', h⟩

theorem Consistent.define (h : Consistent reg) (name line : String) (handler : Handler V) :
    Consistent (reg.define name line handler).registry := by
  unfold Registry.define
  cases Production.parse name line with
  | error e => exact h
  | ok p => exact h.insert p handler

theorem Consistent.defineAll (h : Consistent reg) (lines : List (String × String × Handler V)) :
    Consistent (reg.defineAll lines).registry := by
  induction lines generalizing reg with
  | nil => exact h
  | cons l lines ih =>
    have hfirst := h.define l.1 l.2.1 l.2.2
    exact Registration.registry_andThen hfirst fun _ ↦ ih hfirst

/-! ## Families -/

variable [SemanticValue V]

/-- The two productions of a family with their handlers. -/
def familyEntries (family : Family) (base : String) : List (Registered V) :=
  [⟨(familyProductions family base).1, (familyHandlers family).1⟩,
    ⟨(familyProductions family base).2, (familyHandlers family).2⟩]

/-- The entry is one of the two of a family. -/
def FromFamily (families : List (String × Family)) (e : Registered V) : Prop :=
  ∃ f ∈ families, e ∈ familyEntries f.2 f.1

theorem addsOnly_install (reg : Registry V) (f : String × Family) :
    AddsOnly (FromFamily [f]) reg (reg.install f.1 f.2).registry := by
  by_cases hmem : f ∈ reg.installed
  · rw [install_of_mem hmem]
    exact .refl _ reg
  · have hentry (reg : Registry V) {e : Registered V} (he : e ∈ familyEntries f.2 f.1) :
        AddsOnly (FromFamily [f]) reg (reg.insert e.production e.handler).registry := by
      apply (addsOnly_insert reg e.production e.handler).mono
      rintro _ rfl
      exact ⟨f, List.mem_singleton_self f, he⟩
    have hfirst := hentry reg List.mem_cons_self
    rw [install_of_not_mem hmem]
    apply Registration.registry_andThen hfirst
    intro _
    have hboth := hfirst.trans (hentry _ (List.mem_cons_of_mem _ List.mem_cons_self))
    exact Registration.registry_andThen hboth fun _ ↦ hboth

theorem addsOnly_installAll (reg : Registry V) (families : List (String × Family)) :
    AddsOnly (FromFamily families) reg (reg.installAll families).registry := by
  induction families generalizing reg with
  | nil => exact .refl _ reg
  | cons f families ih =>
    have hfirst : AddsOnly (FromFamily (f :: families)) reg (reg.install f.1 f.2).registry := by
      apply (addsOnly_install reg f).mono
      rintro e ⟨f', hf', h⟩
      exact ⟨f', List.mem_cons.2 (.inl (List.mem_singleton.1 hf')), h⟩
    apply Registration.registry_andThen hfirst
    intro _
    apply hfirst.trans
    apply (ih _).mono
    rintro e ⟨f', hf', h⟩
    exact ⟨f', List.mem_cons_of_mem _ hf', h⟩

theorem Consistent.installAll (h : Consistent reg) (families : List (String × Family)) :
    Consistent (reg.installAll families).registry := by
  induction families generalizing reg with
  | nil => exact h
  | cons f families ih =>
    have hfirst := h.install f.1 f.2
    exact Registration.registry_andThen hfirst fun _ ↦ ih hfirst

/-! ## Grammars -/

theorem addsOnly_load (reg : Registry V) (lines : List (String × String × Handler V))
    (sets : FamilySets) :
    AddsOnly (fun e ↦ FromLine lines e ∨ FromFamily (familiesOf sets) e) reg
      (reg.load lines sets).registry := by
  have hlines : AddsOnly (fun e ↦ FromLine lines e ∨ FromFamily (familiesOf sets) e) reg
      (reg.defineAll lines).registry :=
    (addsOnly_defineAll reg lines).mono fun _ ↦ .inl
  apply Registration.registry_andThen hlines
  intro _
  exact hlines.trans ((addsOnly_installAll _ _).mono fun _ ↦ .inr)

theorem Consistent.load (h : Consistent reg) (lines : List (String × String × Handler V))
    (sets : FamilySets) : Consistent (reg.load lines sets).registry :=
  Registration.registry_andThen (h.defineAll lines) fun _ ↦ (h.defineAll lines).installAll _

theorem mem_familyEntries {family : Family} {base : String} {e : Registered V} :
    e ∈ familyEntries family base ↔
      e = ⟨(familyProductions family base).1, (familyHandlers family).1⟩ ∨
        e = ⟨(familyProductions family base).2, (familyHandlers family).2⟩ := by
  simp [familyEntries]

theorem name_mem_derivedNames {family : Family} {base : String} {e : Registered V}
    (h : e ∈ familyEntries family base) : e.production.name ∈ derivedNames (family.derived base) := by
  have hnames := name_familyProductions family base
  rw [String.append_assoc, String.append_assoc] at hnames
  rcases mem_familyEntries.1 h with rfl | rfl
  · simp [derivedNames, hnames.1]
  · simp [derivedNames, hnames.2]

theorem familyHandlers_congr {family family' : Family} (h : family.kind = family'.kind) :
    (familyHandlers family : Handler V × Handler V) = familyHandlers family' := by
  cases family <;> cases family' <;> first | rfl | cases h

/-- Two productions of families under one name have one handler. -/
theorem handler_eq_of_name_eq {family family' : Family} {base base' : String} {e e' : Registered V}
    (he : e ∈ familyEntries family base) (he' : e' ∈ familyEntries family' base')
    (hname : e.production.name = e'.production.name) : e.handler = e'.handler := by
  have hderived : family.derived base = family'.derived base' :=
    eq_of_mem_derivedNames (name_mem_derivedNames he) (hname ▸ name_mem_derivedNames he')
  obtain ⟨hkind, rfl⟩ := FamilyKind.derived_inj hderived
  have hhandlers := familyHandlers_congr (V := V) hkind
  have hnames := name_familyProductions family base
  have hnames' := name_familyProductions family' base
  rw [← hderived] at hnames'
  rcases mem_familyEntries.1 he with rfl | rfl <;> rcases mem_familyEntries.1 he' with rfl | rfl
  · exact congrArg Prod.fst hhandlers
  · exact absurd ((hnames.1.symm.trans hname).trans hnames'.2) (by simp)
  · exact absurd ((hnames.2.symm.trans hname).trans hnames'.1) (by simp)
  · exact congrArg Prod.snd hhandlers

end Registry

namespace Definition

open Registry

variable {V : Type} [SemanticValue V] {g : Grammar} {handler : String → Handler V} {p : Production}

/-- Every production that a grammar registers is found, with a handler of the rules or a handler of
the families. -/
theorem exists_find?_register (hp : p ∈ (register g handler).registry.productions) :
    ∃ e, (register g handler).registry.find? p.name = some e ∧ e.production = p ∧
      (FromLine (linesOf g handler) e ∨ FromFamily (familiesOf g.families) e) := by
  obtain ⟨e, he, rfl⟩ := mem_productions.1 hp
  have hconsistent := consistent_empty.load (linesOf g handler) g.families
  obtain hnone | hfrom := addsOnly_load {} (linesOf g handler) g.families e he
  · cases hnone
  · exact ⟨e, find?_of_mem hconsistent.nodup he, rfl, hfrom⟩

omit [SemanticValue V] in
theorem handler_of_fromLine {e : Registered V} (h : FromLine (linesOf g handler) e) :
    e.production.name ∈ (Module.entries g).map Module.Entry.handler ∧
      e.handler = handler e.production.name := by
  obtain ⟨l, hl, hname, hhandler⟩ := h
  obtain ⟨entry, hentry, rfl⟩ := List.mem_map.1 hl
  rw [← hname, ← hhandler]
  exact ⟨List.mem_map_of_mem hentry, rfl⟩

/-- Under a name that no family uses, a grammar registers the handler of that name. -/
theorem find?_register_of_rule (hp : p ∈ (register g handler).registry.productions)
    (hfree : ∀ f ∈ familiesOf g.families, p.name ∉ derivedNames (f.2.derived f.1)) :
    (register g handler).registry.find? p.name = some ⟨p, handler p.name⟩ := by
  obtain ⟨e, hfind, rfl, hline | ⟨f, hf, hfamily⟩⟩ := exists_find?_register hp
  · rw [hfind, ← (handler_of_fromLine hline).2]
  · exact absurd (name_mem_derivedNames hfamily) (hfree f hf)

/-- Under a name that no rule uses, a grammar registers the handler of the family. -/
theorem find?_register_of_family {base : String} {family : Family} {e : Registered V}
    (he : e ∈ familyEntries family base)
    (hp : e.production ∈ (register g handler).registry.productions)
    (hfree : e.production.name ∉ (Module.entries g).map Module.Entry.handler) :
    (register g handler).registry.find? e.production.name = some e := by
  obtain ⟨e', hfind, hproduction, hline | ⟨f, hf, hfamily⟩⟩ := exists_find?_register hp
  · rw [← hproduction] at hfree
    exact absurd (handler_of_fromLine hline).1 hfree
  · have hhandler := handler_eq_of_name_eq hfamily he (congrArg Production.name hproduction)
    obtain ⟨production, handler⟩ := e
    obtain ⟨production', handler'⟩ := e'
    obtain rfl : production' = production := hproduction
    obtain rfl : handler' = handler := hhandler
    exact hfind

end Definition

end ParserGenerator
