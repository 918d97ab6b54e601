import ParserGenerator.Proofs.Registry.Families

/-!
# Histories of a registry

A registry grows by calls, and a call may fail half-way: an installation that is refused its second
production has registered its first. Every call is a row of insertions, after which a family may be
recorded, so what insertions and recordings keep is kept by every call. A registry then holds each
production once, never takes one back, and holds both productions of every family on record.
-/

namespace ParserGenerator

/-- A call that registers productions. -/
inductive Operation (V : Type) where
  | define (name line : String) (handler : Handler V)
  | install (base : String) (family : Family)

/-- The right-hand sides that a family derives from a base symbol: the base case and the step. -/
def Family.rightHandSides (family : Family) (base : String) : List String × List String :=
  match family with
  | .optional => ([], [base])
  | .list delimiter =>
    ([base], if delimiter = "" then [base, base ++ "_list"] else [base, delimiter, base ++ "_list"])
  | .string => ([base], [base, base ++ "_string"])

namespace Registration

variable {V α β : Type} {r : Registration V α} {next : Registry V → Registration V β}

def Succeeds (r : Registration V α) : Prop := ∃ a, r.answer = .ok a

theorem succeeds_iff_answer {r : Registration V Unit} : r.Succeeds ↔ r.answer = .ok () := by
  constructor
  · rintro ⟨⟨⟩, h⟩
    exact h
  · intro h
    exact ⟨(), h⟩

theorem andThen_of_not_succeeds (h : ¬ r.Succeeds) :
    (r.andThen next).registry = r.registry ∧ ¬ (r.andThen next).Succeeds := by
  unfold andThen
  cases hanswer : r.answer with
  | error e => exact ⟨rfl, nofun⟩
  | ok a => exact absurd ⟨a, hanswer⟩ h

theorem andThen_of_succeeds (h : r.Succeeds) :
    (r.andThen next).registry = (next r.registry).registry ∧
      ((r.andThen next).Succeeds ↔ (next r.registry).Succeeds) := by
  obtain ⟨a, ha⟩ := h
  unfold andThen Succeeds
  simp only [ha, true_and]

theorem succeeds_andThen : (r.andThen next).Succeeds ↔ r.Succeeds ∧ (next r.registry).Succeeds := by
  by_cases h : r.Succeeds
  · rw [(andThen_of_succeeds h).2]
    exact (and_iff_right h).symm
  · exact iff_of_false (andThen_of_not_succeeds h).2 fun hboth ↦ h hboth.1

/-- What both registrations keep is kept by the two in a row. -/
theorem registry_andThen {P : Registry V → Prop} (hr : P r.registry)
    (hnext : r.Succeeds → P (next r.registry).registry) : P (r.andThen next).registry := by
  by_cases h : r.Succeeds
  · rw [(andThen_of_succeeds h).1]
    exact hnext h
  · rw [(andThen_of_not_succeeds h).1]
    exact hr

end Registration

namespace Registry

variable {V : Type}

theorem mem_productions {reg : Registry V} {p : Production} :
    p ∈ reg.productions ↔ ∃ e ∈ reg.entries, e.production = p := List.mem_map

theorem mem_productions_of_isPrefix {reg reg' : Registry V} (h : reg.entries <+: reg'.entries)
    {p : Production} (hp : p ∈ reg.productions) : p ∈ reg'.productions := by
  obtain ⟨e, he, rfl⟩ := mem_productions.1 hp
  exact mem_productions.2 ⟨e, h.subset he, rfl⟩

/-- Under distinct names every entry is found. -/
theorem find?_of_mem {reg : Registry V} (h : (reg.productions.map Production.name).Nodup)
    {e : Registered V} (he : e ∈ reg.entries) : reg.find? e.production.name = some e := by
  obtain ⟨before, later, hentries⟩ := List.append_of_mem he
  have hother : ∀ x ∈ before, x.production.name ≠ e.production.name := by
    intro x hx heq
    rw [productions, hentries, List.map_map, List.map_append, List.map_cons] at h
    exact List.disjoint_of_nodup_append h (List.mem_map.2 ⟨x, hx, heq⟩) List.mem_cons_self
  apply List.find?_eq_some_iff_append.2
  exact ⟨by simp, before, later, hentries, by simpa using hother⟩

/-! ## Insertions -/

theorem sameShape_iff_eq {p q : Production} (hname : p.name = q.name) :
    p.sameShape q = true ↔ p = q := by
  obtain ⟨name, lhs, rhs, prec⟩ := p
  obtain ⟨name', lhs', rhs', prec'⟩ := q
  obtain rfl : name = name' := hname
  simp [Production.sameShape]

/-- A production goes to the end if its name is new. Otherwise the registry stays as it is, and the
production is refused unless it is the registered one. -/
theorem insert_cases (reg : Registry V) (p : Production) (handler : Handler V) :
    (p.name ∉ reg.productions.map Production.name ∧ (reg.insert p handler).Succeeds ∧
      (reg.insert p handler).registry = { reg with entries := reg.entries ++ [⟨p, handler⟩] }) ∨
    ∃ q ∈ reg.productions, q.name = p.name ∧ (reg.insert p handler).registry = reg ∧
      ((reg.insert p handler).Succeeds ↔ q = p) := by
  unfold insert
  cases hfind : reg.find? p.name with
  | none =>
    left
    refine ⟨?_, ⟨(), rfl⟩, rfl⟩
    intro hmem
    obtain ⟨q, hq, hname⟩ := List.mem_map.1 hmem
    obtain ⟨e, he, rfl⟩ := mem_productions.1 hq
    have hother := List.find?_eq_none.1 hfind e he
    simp [hname] at hother
  | some e =>
    right
    have hname : e.production.name = p.name := by simpa using List.find?_some hfind
    refine ⟨e.production, mem_productions.2 ⟨e, List.mem_of_find?_eq_some hfind, rfl⟩, hname, ?_⟩
    rw [← sameShape_iff_eq hname]
    dsimp only
    split
    · next hshape => exact ⟨rfl, iff_of_true ⟨(), rfl⟩ hshape⟩
    · next hshape => exact ⟨rfl, iff_of_false nofun hshape⟩

theorem isPrefix_insert (reg : Registry V) (p : Production) (handler : Handler V) :
    reg.entries <+: (reg.insert p handler).registry.entries := by
  obtain ⟨-, -, hreg⟩ | ⟨q, -, -, hreg, -⟩ := insert_cases reg p handler
  · rw [hreg]
    exact List.prefix_append _ _
  · exact hreg.symm ▸ List.prefix_rfl

theorem mem_of_insert {reg : Registry V} {p : Production} {handler : Handler V}
    (h : (reg.insert p handler).Succeeds) :
    p ∈ (reg.insert p handler).registry.productions := by
  obtain ⟨-, -, hreg⟩ | ⟨q, hq, -, hreg, hsucceeds⟩ := insert_cases reg p handler
  · rw [hreg]
    simp [productions]
  · rw [hreg, ← hsucceeds.1 h]
    exact hq

/-! ## Consistent registries -/

/-- The registry in which a family is recorded. -/
def record (reg : Registry V) (f : String × Family) : Registry V :=
  { reg with installed := reg.installed ++ [f] }

/-- No two productions share a name, and the productions of all families on record are registered. -/
structure Consistent (reg : Registry V) : Prop where
  nodup : (reg.productions.map Production.name).Nodup
  derived : ∀ f ∈ reg.installed, ∀ p ∈ productionsOf f, p ∈ reg.productions

theorem consistent_empty : Consistent ({} : Registry V) := ⟨List.nodup_nil, nofun⟩

namespace Consistent

variable {reg : Registry V}

theorem insert (h : Consistent reg) (p : Production) (handler : Handler V) :
    Consistent (reg.insert p handler).registry := by
  constructor
  · obtain ⟨hnew, -, hreg⟩ | ⟨q, -, -, hreg, -⟩ := insert_cases reg p handler
    · have hnames : (reg.insert p handler).registry.productions.map Production.name =
          reg.productions.map Production.name ++ [p.name] := by
        simp [hreg, productions]
      rw [hnames]
      apply h.nodup.append (List.nodup_singleton _)
      simpa using hnew
    · rw [hreg]
      exact h.nodup
  · rw [installed_insert]
    intro f hf q hq
    exact mem_productions_of_isPrefix (isPrefix_insert _ _ _) (h.derived f hf q hq)

theorem record (h : Consistent reg) {f : String × Family}
    (hf : ∀ p ∈ productionsOf f, p ∈ reg.productions) : Consistent (reg.record f) := by
  refine ⟨h.nodup, ?_⟩
  intro f' hf'
  rcases List.mem_append.1 hf' with hold | hnew
  · exact h.derived f' hold
  · obtain rfl := List.mem_singleton.1 hnew
    exact hf

/-- Two registered productions of one name are the same. -/
theorem eq_of_name_eq (h : Consistent reg) {p q : Production} (hp : p ∈ reg.productions)
    (hq : q ∈ reg.productions) (hname : p.name = q.name) : p = q :=
  List.inj_on_of_nodup_map h.nodup hp hq hname

theorem exists_entry (h : Consistent reg) {p : Production} (hp : p ∈ reg.productions) :
    ∃ e, reg.find? p.name = some e ∧ e.production = p := by
  obtain ⟨e, he, rfl⟩ := mem_productions.1 hp
  exact ⟨e, find?_of_mem h.nodup he, rfl⟩

end Consistent

/-! ## Families on record -/

/-- The two productions of a family, written out. -/
theorem productionsOf_eq (base : String) (family : Family) :
    productionsOf (base, family) =
      [⟨"p_" ++ family.derived base ++ "_1", family.derived base,
          (family.rightHandSides base).1, none⟩,
        ⟨"p_" ++ family.derived base ++ "_2", family.derived base,
          (family.rightHandSides base).2, none⟩] := by
  cases family with
  | list delimiter =>
    by_cases h : delimiter = "" <;>
      simp [productionsOf, familyProductions, Family.rightHandSides, Family.delimiter?, h,
        Family.derived, Family.kind, FamilyKind.derived, FamilyKind.suffix, derivedHandler_one,
        derivedHandler_two, String.append_assoc]
  | _ =>
    simp [productionsOf, familyProductions, Family.rightHandSides, Family.delimiter?,
      Family.derived, Family.kind, FamilyKind.derived, FamilyKind.suffix, derivedHandler_one,
      derivedHandler_two, String.append_assoc]

theorem name_familyProductions (family : Family) (base : String) :
    (familyProductions family base).1.name = "p_" ++ family.derived base ++ "_1" ∧
      (familyProductions family base).2.name = "p_" ++ family.derived base ++ "_2" := by
  have h := productionsOf_eq base family
  rw [productionsOf, List.cons.injEq, List.cons.injEq] at h
  rw [h.1, h.2.1]
  exact ⟨rfl, rfl⟩

theorem name_familyProductions_ne (family : Family) (base : String) :
    (familyProductions family base).1.name ≠ (familyProductions family base).2.name := by
  rw [(name_familyProductions family base).1, (name_familyProductions family base).2]
  simp

/-- The step of a list tells its delimiter. -/
theorem delimiter_of_rightHandSides {delimiter delimiter' base : String}
    (h : ((Family.list delimiter).rightHandSides base).2 =
      ((Family.list delimiter').rightHandSides base).2) : delimiter = delimiter' := by
  simp only [Family.rightHandSides] at h
  split at h
  · split at h
    · simp_all
    · simp at h
  · split at h
    · simp at h
    · simpa using h

/-- The productions of a family on record are found under their names. -/
theorem Consistent.exists_derived {reg : Registry V} (h : Consistent reg) {base : String}
    {family : Family} (hf : (base, family) ∈ reg.installed) :
    (∃ first, reg.find? ("p_" ++ family.derived base ++ "_1") = some first ∧
      first.production = ⟨"p_" ++ family.derived base ++ "_1", family.derived base,
        (family.rightHandSides base).1, none⟩) ∧
    ∃ second, reg.find? ("p_" ++ family.derived base ++ "_2") = some second ∧
      second.production = ⟨"p_" ++ family.derived base ++ "_2", family.derived base,
        (family.rightHandSides base).2, none⟩ := by
  have hderived := h.derived _ hf
  rw [productionsOf_eq, List.forall_mem_cons, List.forall_mem_singleton] at hderived
  exact ⟨h.exists_entry hderived.1, h.exists_entry hderived.2⟩

/-- The steps of two list families of one base share a name, so they are one production. -/
theorem Consistent.delimiter_eq {reg : Registry V} (h : Consistent reg)
    {base delimiter delimiter' : String} (hl : (base, .list delimiter) ∈ reg.installed)
    (hl' : (base, .list delimiter') ∈ reg.installed) : delimiter = delimiter' := by
  obtain ⟨-, second, hfind, hsecond⟩ := h.exists_derived hl
  obtain ⟨-, second', hfind', hsecond'⟩ := h.exists_derived hl'
  have hsame : second = second' := Option.some.inj (hfind.symm.trans hfind')
  rw [← hsame, hsecond] at hsecond'
  exact delimiter_of_rightHandSides (Production.mk.inj hsecond').2.2.1

/-! ## Calls -/

variable [SemanticValue V]

/-- Carries out a call, of which only the success is reported. -/
def perform (reg : Registry V) : Operation V → Registration V Unit
  | .define name line handler => reg.define name line handler
  | .install base family => (reg.install base family).andThen fun reg ↦ ⟨reg, [], .ok ()⟩

/-- The registry after calls in a row. A call that fails does not keep the later ones from being
made. -/
def after (reg : Registry V) (calls : List (Operation V)) : Registry V :=
  calls.foldl (fun reg call ↦ (reg.perform call).registry) reg

theorem install_of_mem {reg : Registry V} {base : String} {family : Family}
    (h : (base, family) ∈ reg.installed) : reg.install base family = ⟨reg, [], .ok false⟩ := if_pos h

section Induction

variable {P : Registry V → Prop}
  (hinsert : ∀ reg p handler, P reg → P (reg.insert p handler).registry)
  (hrecord : ∀ reg f, P reg → (∀ p ∈ productionsOf f, p ∈ reg.productions) → P (reg.record f))

include hinsert hrecord

/-- A first installation inserts one or two productions, and it records the family if both are
registered then. -/
theorem installNew_induction {reg : Registry V} (hreg : P reg) (base : String) (family : Family) :
    P (reg.installNew base family).registry := by
  unfold installNew
  apply Registration.registry_andThen (hinsert _ _ _ hreg)
  intro hfirst
  apply Registration.registry_andThen (hinsert _ _ _ (hinsert _ _ _ hreg))
  intro hsecond
  apply hrecord _ _ (hinsert _ _ _ (hinsert _ _ _ hreg))
  simp only [productionsOf, List.forall_mem_cons, List.not_mem_nil, false_implies, implies_true,
    and_true]
  exact ⟨mem_productions_of_isPrefix (isPrefix_insert _ _ _) (mem_of_insert hfirst),
    mem_of_insert hsecond⟩

theorem install_induction {reg : Registry V} (hreg : P reg) (base : String) (family : Family) :
    P (reg.install base family).registry := by
  by_cases h : (base, family) ∈ reg.installed
  · rw [install_of_mem h]
    exact hreg
  · rw [install_of_not_mem h]
    exact installNew_induction hinsert hrecord hreg base family

/-- What insertions and recordings keep is kept by every call. -/
theorem perform_induction {reg : Registry V} (hreg : P reg) (call : Operation V) :
    P (reg.perform call).registry := by
  cases call with
  | define name line handler =>
    change P (reg.define name line handler).registry
    unfold define
    cases Production.parse name line with
    | error e => exact hreg
    | ok p => exact hinsert _ _ _ hreg
  | install base family =>
    have hinstall := install_induction hinsert hrecord hreg base family
    apply Registration.registry_andThen hinstall
    intro _
    exact hinstall

end Induction

/-- Nothing is taken back: after a call there are the entries of before, with others after them. -/
theorem isPrefix_perform (reg : Registry V) (call : Operation V) :
    reg.entries <+: (reg.perform call).registry.entries :=
  perform_induction (P := fun reg' ↦ reg.entries <+: reg'.entries)
    (fun _ _ _ h ↦ h.trans (isPrefix_insert _ _ _)) (fun _ _ h _ ↦ h) List.prefix_rfl call

theorem Consistent.install {reg : Registry V} (h : Consistent reg) (base : String)
    (family : Family) : Consistent (reg.install base family).registry :=
  install_induction (P := Consistent) (fun _ p handler h ↦ h.insert p handler)
    (fun _ _ h hf ↦ h.record hf) h base family

theorem Consistent.perform {reg : Registry V} (h : Consistent reg) (call : Operation V) :
    Consistent (reg.perform call).registry :=
  perform_induction (P := Consistent) (fun _ p handler h ↦ h.insert p handler)
    (fun _ _ h hf ↦ h.record hf) h call

theorem Consistent.after {reg : Registry V} (h : Consistent reg) (calls : List (Operation V)) :
    Consistent (reg.after calls) := by
  induction calls generalizing reg with
  | nil => exact h
  | cons call calls ih => exact ih (h.perform call)

/-- After any calls on a new registry, refused ones included: every production is registered once
and found under its own name, a further call leaves the entries before it as they are, both
productions of a family on record are registered with the shape that the family derives, the lists
of one base have one delimiter, and the installation of a family on record does nothing. -/
theorem invariant_after (calls : List (Operation V)) :
    let reg := after {} calls
    (reg.productions.map Production.name).Nodup ∧
    (∀ e ∈ reg.entries, reg.find? e.production.name = some e) ∧
    (∀ call, reg.entries <+: (reg.perform call).registry.entries) ∧
    (∀ base family, (base, family) ∈ reg.installed →
      (∃ first, reg.find? ("p_" ++ family.derived base ++ "_1") = some first ∧
        first.production = ⟨"p_" ++ family.derived base ++ "_1", family.derived base,
          (family.rightHandSides base).1, none⟩) ∧
      ∃ second, reg.find? ("p_" ++ family.derived base ++ "_2") = some second ∧
        second.production = ⟨"p_" ++ family.derived base ++ "_2", family.derived base,
          (family.rightHandSides base).2, none⟩) ∧
    (∀ base delimiter delimiter', (base, .list delimiter) ∈ reg.installed →
      (base, .list delimiter') ∈ reg.installed → delimiter = delimiter') ∧
    ∀ base family, (base, family) ∈ reg.installed →
      reg.install base family = ⟨reg, [], .ok false⟩ := by
  intro reg
  have h : Consistent reg := consistent_empty.after calls
  refine ⟨h.nodup, fun e ↦ find?_of_mem h.nodup, isPrefix_perform reg, ?_, ?_, ?_⟩
  · intro base family hf
    exact h.exists_derived hf
  · intro base delimiter delimiter' hl hl'
    exact h.delimiter_eq hl hl'
  · intro base family hf
    exact install_of_mem hf

/-- A history with a production that the user defines under the name of a derived one, the list that
agrees with it, a list with another delimiter, which is refused its second production, and a family
that is refused at once because its first name is taken. -/
def overlapping : List (Operation Value) :=
  [.define "p_a_list_1" "a_list : a" .noop, .install "a" (.list "','"), .install "a" (.list "';'"),
    .define "p_b_opt_1" "b_opt : c" .noop, .install "b" .optional]

theorem invariant_after_overlapping :
    let reg := after {} overlapping
    (reg.productions.map Production.name = ["p_a_list_1", "p_a_list_2", "p_b_opt_1"] ∧
      ("a", .list "','") ∈ reg.installed) ∧
    (∃ second, reg.find? ("p_" ++ (Family.list "','").derived "a" ++ "_2") = some second ∧
      second.production = ⟨"p_" ++ (Family.list "','").derived "a" ++ "_2",
        (Family.list "','").derived "a", ((Family.list "','").rightHandSides "a").2, none⟩) ∧
    reg.entries <+: (reg.perform (.install "a" (.list "';'"))).registry.entries ∧
    (∀ delimiter, ("a", .list delimiter) ∈ reg.installed → delimiter = "','") ∧
    reg.install "a" (.list "','") = ⟨reg, [], .ok false⟩ := by
  intro reg
  have hinstalled : ("a", .list "','") ∈ reg.installed := by decide +kernel
  obtain ⟨-, -, hprefix, hderived, hdelimiter, hagain⟩ := invariant_after overlapping
  exact ⟨⟨by decide +kernel, hinstalled⟩, (hderived "a" _ hinstalled).2, hprefix _,
    fun delimiter h ↦ hdelimiter "a" _ _ h hinstalled, hagain "a" _ hinstalled⟩

end Registry

end ParserGenerator
