import ParserGenerator.Proofs.Registry.History

/-!
# Refused calls

A line that is refused leaves a registry as it was. So does a family, unless its first production is
new and its second clashes with a registered one: the first production is then registered, and it
stays although the family is not recorded.
-/

namespace ParserGenerator

namespace Registration

variable {V α β : Type} {r : Registration V α}

theorem not_succeeds_of_error {e : DefinitionError} (h : r.answer = .error e) : ¬ r.Succeeds := by
  rintro ⟨a, ha⟩
  cases h.symm.trans ha

/-- If what follows cannot fail, the first step is the one that was refused. -/
theorem registry_andThen_of_refused {next : Registry V → Registration V β}
    (hnext : ∀ reg, (next reg).Succeeds) (h : ¬ (r.andThen next).Succeeds) :
    ¬ r.Succeeds ∧ (r.andThen next).registry = r.registry := by
  have hr : ¬ r.Succeeds := fun hs ↦ h (succeeds_andThen.2 ⟨hs, hnext _⟩)
  exact ⟨hr, (andThen_of_not_succeeds hr).1⟩

end Registration

namespace Registry

variable {V : Type} {reg : Registry V}

theorem insert_of_refused {p : Production} {handler : Handler V}
    (h : ¬ (reg.insert p handler).Succeeds) :
    (reg.insert p handler).registry = reg ∧ ∃ q ∈ reg.productions, q.name = p.name ∧ q ≠ p := by
  obtain ⟨-, hs, -⟩ | ⟨q, hq, hname, hreg, hs⟩ := insert_cases reg p handler
  · exact absurd hs h
  · exact ⟨hreg, q, hq, hname, fun heq ↦ h (hs.2 heq)⟩

theorem define_of_refused {name line : String} {handler : Handler V}
    (h : ¬ (reg.define name line handler).Succeeds) :
    (reg.define name line handler).registry = reg := by
  unfold define at h ⊢
  cases hparse : Production.parse name line with
  | error e => rfl
  | ok p =>
    rw [hparse] at h
    exact (insert_of_refused h).1

variable [SemanticValue V] {base : String} {family : Family}

/-- The second half of a first installation. -/
def installSecond (reg : Registry V) (base : String) (family : Family) : Registration V Bool :=
  (reg.insert (familyProductions family base).2 (familyHandlers family).2).andThen fun reg ↦
    ⟨reg.record (base, family), [], .ok true⟩

theorem installNew_eq (reg : Registry V) (base : String) (family : Family) :
    reg.installNew base family =
      (reg.insert (familyProductions family base).1 (familyHandlers family).1).andThen fun reg ↦
        reg.installSecond base family := rfl

theorem installSecond_of_refused (h : ¬ (reg.installSecond base family).Succeeds) :
    (reg.installSecond base family).registry = reg ∧
      ∃ q ∈ reg.productions, q.name = (familyProductions family base).2.name ∧
        q ≠ (familyProductions family base).2 := by
  obtain ⟨hrefused, hreg⟩ := Registration.registry_andThen_of_refused (fun _ ↦ ⟨true, rfl⟩) h
  obtain ⟨hsame, hclash⟩ := insert_of_refused hrefused
  exact ⟨hreg.trans hsame, hclash⟩

/-- Nothing has changed, or the first production was new and the second clashes. -/
theorem installNew_of_refused (h : ¬ (reg.installNew base family).Succeeds) :
    let first := (familyProductions family base).1
    let second := (familyProductions family base).2
    (first.name ∈ reg.productions.map Production.name ∧
      (reg.installNew base family).registry = reg) ∨
    (first.name ∉ reg.productions.map Production.name ∧
      (reg.installNew base family).registry =
        { reg with entries := reg.entries ++ [⟨first, (familyHandlers family).1⟩] } ∧
      ∃ q ∈ reg.productions, q.name = second.name ∧ q ≠ second) := by
  intro first second
  rw [installNew_eq] at h ⊢
  obtain ⟨hnew, hs, hreg⟩ | ⟨q, hq, hname, hreg, -⟩ :=
    insert_cases reg first (familyHandlers family).1
  · right
    rw [(Registration.andThen_of_succeeds hs).1]
    rw [(Registration.andThen_of_succeeds hs).2] at h
    obtain ⟨hkept, q, hq, hname, hne⟩ := installSecond_of_refused h
    refine ⟨hnew, hkept.trans hreg, q, ?_, hname, hne⟩
    rw [hreg, productions, List.map_append, List.mem_append] at hq
    -- The clash is not with the first production, which has another name.
    rcases hq with hq | hq
    · exact hq
    · obtain rfl := List.mem_singleton.1 hq
      exact absurd hname (name_familyProductions_ne family base)
  · left
    refine ⟨hname ▸ List.mem_map_of_mem hq, ?_⟩
    apply Registration.registry_andThen (P := (· = reg)) hreg
    intro hs
    rw [Registration.succeeds_andThen] at h
    have hsecond := installSecond_of_refused fun hlater ↦ h ⟨hs, hlater⟩
    exact hsecond.1.trans hreg

theorem perform_install_of_refused
    (h : ¬ (reg.perform (.install base family)).Succeeds) :
    ¬ (reg.installNew base family).Succeeds ∧
      (reg.perform (.install base family)).registry = (reg.installNew base family).registry := by
  obtain ⟨hinstall, hreg⟩ : ¬ (reg.install base family).Succeeds ∧
      (reg.perform (.install base family)).registry = (reg.install base family).registry :=
    Registration.registry_andThen_of_refused (fun _ ↦ ⟨(), rfl⟩) h
  have hnew : (base, family) ∉ reg.installed := by
    intro hmem
    rw [install_of_mem hmem] at hinstall
    exact hinstall ⟨false, rfl⟩
  rw [hreg]
  rw [install_of_not_mem hnew] at hinstall ⊢
  exact ⟨hinstall, rfl⟩

/-- A refused call leaves the registry as it was, except for a family whose first production is new.
Of such a family the first production stays at the end of the registry, with the handler that goes
with it, because the second is not the production that is registered under its name. -/
theorem registry_of_refused (reg : Registry V) (call : Operation V) {e : DefinitionError}
    (h : (reg.perform call).answer = .error e) :
    ((reg.perform call).registry = reg ↔ ∀ base family, call = .install base family →
      "p_" ++ family.derived base ++ "_1" ∈ reg.productions.map Production.name) ∧
    ∀ base family, call = .install base family →
      "p_" ++ family.derived base ++ "_1" ∉ reg.productions.map Production.name →
      (reg.perform call).registry =
        { reg with entries := reg.entries ++
            [⟨⟨"p_" ++ family.derived base ++ "_1", family.derived base,
              (family.rightHandSides base).1, none⟩, (familyHandlers family).1⟩] } ∧
      ∃ q ∈ reg.productions, q.name = "p_" ++ family.derived base ++ "_2" ∧
        q ≠ ⟨"p_" ++ family.derived base ++ "_2", family.derived base,
          (family.rightHandSides base).2, none⟩ := by
  have hrefused := Registration.not_succeeds_of_error h
  cases call with
  | define name line handler =>
    have hreg : (reg.perform (.define name line handler)).registry = reg :=
      define_of_refused hrefused
    exact ⟨iff_of_true hreg nofun, nofun⟩
  | install base family =>
    obtain ⟨hnew, hreg⟩ := perform_install_of_refused hrefused
    have hproductions := productionsOf_eq base family
    simp only [productionsOf, List.cons.injEq, and_true] at hproductions
    have hcases := installNew_of_refused hnew
    rw [hproductions.1, hproductions.2] at hcases
    obtain ⟨hold, hsame⟩ | ⟨hfresh, hgrown, hclash⟩ := hcases
    · refine ⟨iff_of_true (hreg.trans hsame) ?_, ?_⟩
      · rintro _ _ ⟨⟩
        exact hold
      · rintro _ _ ⟨⟩ hfresh
        exact absurd hold hfresh
    · refine ⟨iff_of_false ?_ ?_, ?_⟩
      · rw [hreg, hgrown]
        intro heq
        simpa using congrArg (·.entries.length) heq
      · intro hold
        exact hfresh (hold base family rfl)
      · rintro _ _ ⟨⟩ -
        exact ⟨hreg.trans hgrown, hclash⟩

/-- A list with another delimiter is refused and changes nothing. An optional symbol is refused
because of a production under its second name, and the production under its first name stays. -/
theorem registry_of_refused_families :
    let reg : Registry Value :=
      after {} [.install "a" (.list "','"), .define "p_x_opt_2" "x_opt : y" .noop]
    let list : Operation Value := .install "a" (.list "';'")
    let optional : Operation Value := .install "x" .optional
    ((reg.perform list).answer = .error (.duplicate "p_a_list_2" "a_list : a ',' a_list") ∧
      "p_" ++ (Family.list "';'").derived "a" ++ "_1" ∈ reg.productions.map Production.name ∧
      (reg.perform list).registry = reg) ∧
    (reg.perform optional).answer = .error (.duplicate "p_x_opt_2" "x_opt : y") ∧
      "p_" ++ Family.optional.derived "x" ++ "_1" ∉ reg.productions.map Production.name ∧
      (reg.perform optional).registry.installed = reg.installed := by
  intro reg list optional
  have hlist : (reg.perform list).answer =
      .error (.duplicate "p_a_list_2" "a_list : a ',' a_list") := by
    decide +kernel
  have hold : "p_" ++ (Family.list "';'").derived "a" ++ "_1" ∈
      reg.productions.map Production.name := by
    decide +kernel
  have hoptional : (reg.perform optional).answer = .error (.duplicate "p_x_opt_2" "x_opt : y") := by
    decide +kernel
  have hfresh : "p_" ++ Family.optional.derived "x" ++ "_1" ∉
      reg.productions.map Production.name := by
    decide +kernel
  refine ⟨⟨hlist, hold, (registry_of_refused reg list hlist).1.2 ?_⟩, hoptional, hfresh, ?_⟩
  · intro base family hcall
    obtain ⟨rfl, rfl⟩ := Operation.install.inj hcall
    exact hold
  · rw [((registry_of_refused reg optional hoptional).2 _ _ rfl hfresh).1]

/-- An optional `x` is refused because of another production under its second name. The production
under its first name has been registered by then. -/
theorem refused_install_keeps_first :
    let reg : Registry Value := after {} [.define "p_x_opt_2" "x_opt : y" .noop]
    let refused := reg.perform (.install "x" .optional)
    refused.answer = .error (.duplicate "p_x_opt_2" "x_opt : y") ∧
      reg.productions = [⟨"p_x_opt_2", "x_opt", ["y"], none⟩] ∧
      refused.registry.productions =
        [⟨"p_x_opt_2", "x_opt", ["y"], none⟩, ⟨"p_x_opt_1", "x_opt", [], none⟩] ∧
      refused.registry.installed = [] := by
  intro reg refused
  exact ⟨by decide +kernel, by decide +kernel, by decide +kernel, by decide +kernel⟩

end Registry

end ParserGenerator
