import Mathlib.Data.List.Nodup
import ParserGenerator.Proofs.Registry.Loading

/-!
# The productions of families

A family derives two productions from a base symbol. No two of the derived productions of a grammar
share a name: the last character of a name tells the two productions of a family apart, the
characters before it tell the kinds apart, and the rest is the base.
-/

namespace ParserGenerator

theorem FamilyKind.derived_inj {kind kind' : FamilyKind} {base base' : String}
    (h : kind.derived base = kind'.derived base') : kind = kind' ∧ base = base' := by
  have hlist : (base.toList ++ kind.suffix.toList).reverse =
      (base'.toList ++ kind'.suffix.toList).reverse := by
    rw [← String.toList_append, ← String.toList_append]
    exact congrArg (fun s : String ↦ s.toList.reverse) h
  cases kind <;> cases kind' <;> simp [suffix] at hlist ⊢ <;> exact String.toList_inj.1 hlist

namespace Registry

theorem derivedHandler_one (derived : String) :
    derivedHandler derived 1 = "p_" ++ (derived ++ "_1") := by
  rw [← String.append_assoc]
  exact String.append_assoc ..

theorem derivedHandler_two (derived : String) :
    derivedHandler derived 2 = "p_" ++ (derived ++ "_2") := by
  rw [← String.append_assoc]
  exact String.append_assoc ..

/-- The two productions that a family of the given kind derives from a base symbol. -/
def derivedProductions (kind : FamilyKind) (base : String) : List Production :=
  match kind with
  | .list =>
    [⟨"p_" ++ base ++ "_list_1", base ++ "_list", [base], none⟩,
     ⟨"p_" ++ base ++ "_list_2", base ++ "_list", [base, "','", base ++ "_list"], none⟩]
  | .string =>
    [⟨"p_" ++ base ++ "_string_1", base ++ "_string", [base], none⟩,
     ⟨"p_" ++ base ++ "_string_2", base ++ "_string", [base, base ++ "_string"], none⟩]
  | .optional =>
    [⟨"p_" ++ base ++ "_opt_1", base ++ "_opt", [], none⟩,
     ⟨"p_" ++ base ++ "_opt_2", base ++ "_opt", [base], none⟩]

/-- The productions of all families of a grammar in the order of their installation. -/
def familyTable (sets : FamilySets) : List Production :=
  sets.list.names.flatMap (derivedProductions .list) ++
    sets.string.names.flatMap (derivedProductions .string) ++
    sets.optional.names.flatMap (derivedProductions .optional)

theorem productionsOf_ofKind (kind : FamilyKind) (base : String) :
    productionsOf (base, .ofKind kind) = derivedProductions kind base := by
  cases kind <;>
    simp [productionsOf, familyProductions, Family.ofKind, Family.commaList, Family.derived,
      Family.kind, Family.delimiter?, FamilyKind.derived, FamilyKind.suffix, derivedProductions,
      derivedHandler_one, derivedHandler_two, String.append_assoc]

theorem flatMap_productionsOf (sets : FamilySets) :
    (familiesOf sets).flatMap productionsOf = familyTable sets := by
  have hkind (kind : FamilyKind) (names : List String) :
      (names.map (·, Family.ofKind kind)).flatMap productionsOf =
        names.flatMap (derivedProductions kind) := by
    rw [List.flatMap_map]
    congr 1
    funext base
    exact productionsOf_ofKind kind base
  unfold familiesOf familyTable
  rw [List.flatMap_append, List.flatMap_append]
  exact congrArg₂ _ (congrArg₂ _ (hkind .list _) (hkind .string _)) (hkind .optional _)

/-! ## Names -/

/-- The names under which the two productions of a derived symbol are registered. -/
def derivedNames (derived : String) : List String :=
  ["p_" ++ (derived ++ "_1"), "p_" ++ (derived ++ "_2")]

theorem eq_of_mem_derivedNames {derived derived' name : String} (h : name ∈ derivedNames derived)
    (h' : name ∈ derivedNames derived') : derived = derived' := by
  have hreverse (d : String) (hd : name ∈ derivedNames d) :
      ∃ c, name.toList.reverse = c :: '_' :: (d.toList.reverse ++ ['_', 'p']) := by
    simp only [derivedNames, List.mem_cons, List.not_mem_nil, or_false] at hd
    rcases hd with rfl | rfl
    · exact ⟨'1', by simp⟩
    · exact ⟨'2', by simp⟩
  obtain ⟨c, hc⟩ := hreverse derived h
  obtain ⟨c', hc'⟩ := hreverse derived' h'
  have heq := hc.symm.trans hc'
  simp only [List.cons.injEq, List.append_cancel_right_eq, List.reverse_inj, true_and] at heq
  exact String.toList_inj.1 heq.2

theorem nodup_derivedNames (derived : String) : (derivedNames derived).Nodup := by
  simp [derivedNames]

theorem map_name_derivedProductions (kind : FamilyKind) (base : String) :
    (derivedProductions kind base).map Production.name = derivedNames (kind.derived base) := by
  cases kind <;>
    simp [derivedProductions, derivedNames, FamilyKind.derived, FamilyKind.suffix,
      String.append_assoc]

theorem lhs_of_mem_derivedProductions {kind : FamilyKind} {base : String} {p : Production}
    (h : p ∈ derivedProductions kind base) : p.lhs = kind.derived base := by
  cases kind with
  | _ =>
    simp only [derivedProductions, List.mem_cons, List.not_mem_nil, or_false] at h
    rcases h with rfl | rfl <;> rfl

/-- The kinds and bases of the families of a grammar in the order of their installation. -/
def familyKeys (sets : FamilySets) : List (FamilyKind × String) :=
  [.list, .string, .optional].flatMap fun kind ↦ (sets.get kind).names.map (kind, ·)

theorem mem_familyKeys {sets : FamilySets} {kind : FamilyKind} {base : String} :
    (kind, base) ∈ familyKeys sets ↔ base ∈ sets.get kind := by
  cases kind <;> simp [familyKeys, NameSet.mem_def]

theorem nodup_familyKeys (sets : FamilySets) : (familyKeys sets).Nodup := by
  apply List.nodup_flatMap.2
  constructor
  · intro kind _
    apply (sets.get kind).nodup.map
    intro base base' h
    exact (Prod.mk.inj h).2
  · have hkinds : [FamilyKind.list, .string, .optional].Nodup := by decide
    apply hkinds.imp
    rintro kind kind' hne ⟨k, base⟩ hk hk'
    obtain ⟨_, _, hleft⟩ := List.mem_map.1 hk
    obtain ⟨_, _, hright⟩ := List.mem_map.1 hk'
    exact hne ((Prod.mk.inj hleft).1.trans (Prod.mk.inj hright).1.symm)

theorem familiesOf_eq_map (sets : FamilySets) :
    familiesOf sets = (familyKeys sets).map fun key ↦ (key.2, Family.ofKind key.1) := by
  simp [familiesOf, familyKeys, Function.comp_def, FamilySets.get, Family.ofKind]

theorem familyTable_eq_flatMap (sets : FamilySets) :
    familyTable sets = (familyKeys sets).flatMap fun key ↦ derivedProductions key.1 key.2 := by
  simp [familyTable, familyKeys, List.flatMap_append, List.flatMap_map, FamilySets.get]

theorem nodup_familiesOf (sets : FamilySets) : (familiesOf sets).Nodup := by
  rw [familiesOf_eq_map]
  apply (nodup_familyKeys sets).map
  rintro ⟨kind, base⟩ ⟨kind', base'⟩ h
  obtain ⟨rfl, hkind⟩ := Prod.mk.inj h
  have hkind : kind = kind' := by
    cases kind <;> cases kind' <;> first | rfl | cases hkind
  rw [hkind]

/-- No two derived productions share a name. -/
theorem nodup_names_familyTable (sets : FamilySets) :
    ((familyTable sets).map Production.name).Nodup := by
  have hnames : (familyTable sets).map Production.name =
      (familyKeys sets).flatMap fun key ↦ derivedNames (key.1.derived key.2) := by
    rw [familyTable_eq_flatMap, List.map_flatMap]
    congr 1
    funext key
    exact map_name_derivedProductions key.1 key.2
  rw [hnames]
  apply List.nodup_flatMap.2
  refine ⟨fun key _ ↦ nodup_derivedNames _, ?_⟩
  apply (nodup_familyKeys sets).imp
  rintro ⟨kind, base⟩ ⟨kind', base'⟩ hne name h h'
  obtain ⟨rfl, rfl⟩ := FamilyKind.derived_inj (eq_of_mem_derivedNames h h')
  exact hne rfl

theorem mem_familyTable {sets : FamilySets} {p : Production} :
    p ∈ familyTable sets ↔ ∃ kind, ∃ base ∈ sets.get kind, p ∈ derivedProductions kind base := by
  rw [familyTable_eq_flatMap, List.mem_flatMap]
  constructor
  · rintro ⟨⟨kind, base⟩, hkey, hp⟩
    exact ⟨kind, base, mem_familyKeys.1 hkey, hp⟩
  · rintro ⟨kind, base, hbase, hp⟩
    exact ⟨(kind, base), mem_familyKeys.2 hbase, hp⟩

theorem mem_names_familyTable {sets : FamilySets} {name : String} :
    name ∈ (familyTable sets).map Production.name ↔
      ∃ kind, ∃ base ∈ (sets.get kind).names, name ∈ derivedNames (kind.derived base) := by
  simp only [← map_name_derivedProductions, List.mem_map, mem_familyTable]
  constructor
  · rintro ⟨p, ⟨kind, base, hbase, hp⟩, rfl⟩
    exact ⟨kind, base, hbase, p, hp, rfl⟩
  · rintro ⟨kind, base, hbase, p, hp, rfl⟩
    exact ⟨p, ⟨kind, base, hbase, hp⟩, rfl⟩

theorem length_familyTable (sets : FamilySets) :
    (familyTable sets).length =
      2 * (sets.list.names.length + sets.string.names.length + sets.optional.names.length) := by
  have hkind (kind : FamilyKind) (names : List String) :
      (names.flatMap (derivedProductions kind)).length = 2 * names.length := by
    induction names with
    | nil => rfl
    | cons name names ih => cases kind <;> simp [derivedProductions, ih] <;> omega
  simp only [familyTable, List.length_append, hkind]
  omega

end Registry

end ParserGenerator
