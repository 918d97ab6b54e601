import ParserGenerator.Parsing.Script

/-!
# Loading a registry

A registration is seen through the list of productions that it leaves, or nothing if it fails. In
this view registering is appending a production whose name is new, and every operation on registries
is a fold of that one. A list of productions with distinct names can be appended exactly if none of
the names is taken by a production of another shape.
-/

namespace ParserGenerator

variable {V α β : Type}

/-- The productions after a registration, if it succeeds. -/
def Registration.productions? (r : Registration V α) : Option (List Production) :=
  match r.answer with
  | .ok _ => some r.registry.productions
  | .error _ => none

theorem Registration.productions?_eq_some {r : Registration V α} {ps : List Production} :
    r.productions? = some ps ↔ (∃ a, r.answer = .ok a) ∧ r.registry.productions = ps := by
  unfold productions?
  cases r.answer <;> simp

theorem Registration.productions?_andThen {r : Registration V α}
    {next : Registry V → Registration V β} (f : List Production → Option (List Production))
    (h : (∃ a, r.answer = .ok a) → (next r.registry).productions? = f r.registry.productions) :
    (r.andThen next).productions? = r.productions?.bind f := by
  unfold andThen
  cases hanswer : r.answer with
  | error e => simp [productions?, hanswer]
  | ok a =>
    have hnext := h ⟨a, hanswer⟩
    simp only [productions?, hanswer, Option.bind_some] at hnext ⊢
    exact hnext

/-- Registers a production in a list of productions. -/
def Production.addTo (ps : List Production) (p : Production) : Option (List Production) :=
  match ps.find? (·.name = p.name) with
  | some existing => if existing.sameShape p then some ps else none
  | none => some (ps ++ [p])

namespace Registry

theorem productions?_insert (reg : Registry V) (p : Production) (handler : Handler V) :
    (reg.insert p handler).productions? = p.addTo reg.productions := by
  have hfind : reg.productions.find? (·.name = p.name) =
      (reg.find? p.name).map (·.production) := List.find?_map ..
  unfold insert Production.addTo
  rw [hfind]
  cases reg.find? p.name with
  | none => simp [Registration.productions?, productions]
  | some existing =>
    simp only [Option.map_some]
    split <;> rfl

theorem installed_insert (reg : Registry V) (p : Production) (handler : Handler V) :
    (reg.insert p handler).registry.installed = reg.installed := by
  unfold insert
  split
  · split <;> rfl
  · rfl

/-! ## Lines -/

theorem productions?_define (reg : Registry V) (name line : String) (handler : Handler V) :
    (reg.define name line handler).productions? =
      (Production.parse name line).toOption.bind (Production.addTo reg.productions) := by
  unfold define
  cases Production.parse name line with
  | error e => rfl
  | ok p => exact productions?_insert reg p handler

theorem installed_define (reg : Registry V) (name line : String) (handler : Handler V) :
    (reg.define name line handler).registry.installed = reg.installed := by
  unfold define
  split
  · rfl
  · exact installed_insert reg _ handler

theorem name_of_parse {name line : String} {p : Production}
    (h : Production.parse name line = .ok p) : p.name = name := by
  unfold Production.parse at h
  split at h
  · simp at h
  · dsimp only at h
    split at h
    · split at h
      · obtain rfl := Except.ok.inj h
        rfl
      · simp at h
    · simp at h

theorem addTo_of_not_mem {ps : List Production} {p : Production}
    (h : p.name ∉ ps.map Production.name) : p.addTo ps = some (ps ++ [p]) := by
  have hfind : ps.find? (·.name = p.name) = none := by
    rw [List.find?_eq_none]
    intro q hq
    simpa using fun hname : q.name = p.name ↦ h (List.mem_map.2 ⟨q, hq, hname⟩)
  simp [Production.addTo, hfind]

/-- A line under a new name is registered if it can be read. -/
theorem productions?_define_of_not_mem {reg : Registry V} {name : String}
    (h : name ∉ reg.productions.map Production.name) (line : String) (handler : Handler V) :
    (reg.define name line handler).productions? =
      (Production.parse name line).toOption.map fun p ↦ reg.productions ++ [p] := by
  rw [productions?_define]
  cases hparse : Production.parse name line with
  | error e => rfl
  | ok p => exact addTo_of_not_mem (name_of_parse hparse ▸ h)

/-- The productions of lines, if all of them can be read. -/
def readLines (lines : List (String × String × Handler V)) : Option (List Production) :=
  lines.mapM fun l ↦ (Production.parse l.1 l.2.1).toOption

/-- Lines under distinct new names are all registered unless one of them cannot be read. -/
theorem productions?_defineAll {reg : Registry V} {lines : List (String × String × Handler V)}
    (hnodup : (lines.map (·.1)).Nodup)
    (hfresh : ∀ l ∈ lines, l.1 ∉ reg.productions.map Production.name) :
    (reg.defineAll lines).productions? = (readLines lines).map (reg.productions ++ ·) := by
  induction lines generalizing reg with
  | nil => simp [defineAll, readLines, Registration.productions?]
  | cons l lines ih =>
    obtain ⟨name, line, handler⟩ := l
    rw [List.map_cons, List.nodup_cons] at hnodup
    have hdefine := productions?_define_of_not_mem (hfresh _ List.mem_cons_self) line handler
    have hlater (hok : ∃ a, (reg.define name line handler).answer = .ok a) :
        ((reg.define name line handler).registry.defineAll lines).productions? =
          (readLines lines).map ((reg.define name line handler).registry.productions ++ ·) := by
      apply ih hnodup.2
      intro l hl
      have hsome := Registration.productions?_eq_some.2 ⟨hok, rfl⟩
      rw [hdefine] at hsome
      obtain ⟨p, hp, hps⟩ := Option.map_eq_some_iff.1 hsome
      have hname : p.name = name := by
        cases hparse : Production.parse name line with
        | error e => simp [hparse, Except.toOption] at hp
        | ok q =>
          obtain rfl : q = p := by simpa [hparse, Except.toOption] using hp
          exact name_of_parse hparse
      have hne : l.1 ≠ name := fun heq ↦ hnodup.1 (List.mem_map.2 ⟨l, hl, heq⟩)
      rw [← hps]
      simpa [hname, hne] using hfresh l (List.mem_cons_of_mem _ hl)
    rw [defineAll, Registration.productions?_andThen
      (fun ps ↦ (readLines lines).map (ps ++ ·)) hlater, hdefine]
    unfold readLines
    rw [List.mapM_cons]
    cases (Production.parse name line).toOption with
    | none => rfl
    | some p =>
      cases lines.mapM fun l ↦ (Production.parse l.1 l.2.1).toOption with
      | none => rfl
      | some ps => simp

theorem installed_defineAll (reg : Registry V) (lines : List (String × String × Handler V)) :
    (reg.defineAll lines).registry.installed = reg.installed := by
  induction lines generalizing reg with
  | nil => rfl
  | cons l lines ih =>
    obtain ⟨name, line, handler⟩ := l
    rw [defineAll, Registration.andThen]
    split
    · exact installed_define reg name line handler
    · exact (ih _).trans (installed_define reg name line handler)

/-! ## Families -/

variable [SemanticValue V]

/-- The two productions of a family, in the order of their registration. -/
def productionsOf (f : String × Family) : List Production :=
  [(familyProductions f.2 f.1).1, (familyProductions f.2 f.1).2]

/-- The installation of a family that has not been installed before. -/
def installNew (reg : Registry V) (base : String) (family : Family) : Registration V Bool :=
  (reg.insert (familyProductions family base).1 (familyHandlers family).1).andThen fun reg ↦
    (reg.insert (familyProductions family base).2 (familyHandlers family).2).andThen fun reg ↦
      ⟨{ reg with installed := reg.installed ++ [(base, family)] }, [], .ok true⟩

theorem install_of_not_mem {reg : Registry V} {base : String} {family : Family}
    (h : (base, family) ∉ reg.installed) :
    reg.install base family =
      { reg.installNew base family with
        events := .familyInstalled family base :: (reg.installNew base family).events } := by
  unfold install
  rw [if_neg h]
  rfl

theorem productions?_install {reg : Registry V} {base : String} {family : Family}
    (h : (base, family) ∉ reg.installed) :
    (reg.install base family).productions? =
      (productionsOf (base, family)).foldlM Production.addTo reg.productions := by
  have hsecond (reg : Registry V) :
      ((reg.insert (familyProductions family base).2 (familyHandlers family).2).andThen fun reg ↦
        (⟨{ reg with installed := reg.installed ++ [(base, family)] }, [], .ok true⟩ :
          Registration V Bool)).productions? =
        (familyProductions family base).2.addTo reg.productions := by
    rw [Registration.productions?_andThen some fun _ ↦ rfl, productions?_insert]
    exact Option.bind_fun_some _
  rw [install_of_not_mem h]
  change (reg.installNew base family).productions? = _
  rw [installNew, Registration.productions?_andThen
    (Production.addTo · (familyProductions family base).2) fun _ ↦ hsecond _, productions?_insert]
  simp [productionsOf]

theorem installed_install {reg : Registry V} {base : String} {family : Family}
    (h : (base, family) ∉ reg.installed) (hok : ∃ a, (reg.install base family).answer = .ok a) :
    (reg.install base family).registry.installed = reg.installed ++ [(base, family)] := by
  rw [install_of_not_mem h] at hok ⊢
  unfold installNew Registration.andThen at hok ⊢
  dsimp only at hok ⊢
  split at hok
  · simp at hok
  · dsimp only at hok
    split at hok
    · simp at hok
    · dsimp only
      rw [installed_insert, installed_insert]

/-- Families that are installed for the first time are registered production by production. -/
theorem productions?_installAll {reg : Registry V} {families : List (String × Family)}
    (hnodup : families.Nodup) (hnew : ∀ f ∈ families, f ∉ reg.installed) :
    (reg.installAll families).productions? =
      (families.flatMap productionsOf).foldlM Production.addTo reg.productions := by
  induction families generalizing reg with
  | nil => rfl
  | cons f families ih =>
    obtain ⟨base, family⟩ := f
    rw [List.nodup_cons] at hnodup
    have hf := hnew _ List.mem_cons_self
    have hlater (hok : ∃ a, (reg.install base family).answer = .ok a) :
        ((reg.install base family).registry.installAll families).productions? =
          (families.flatMap productionsOf).foldlM Production.addTo
            (reg.install base family).registry.productions := by
      apply ih hnodup.2
      intro f' hf'
      have hne : f' ≠ (base, family) := fun heq ↦ hnodup.1 (heq ▸ hf')
      rw [installed_install hf hok]
      simpa [hne] using hnew f' (List.mem_cons_of_mem _ hf')
    rw [installAll, Registration.productions?_andThen
      ((families.flatMap productionsOf).foldlM Production.addTo) hlater, productions?_install hf,
      List.flatMap_cons, List.foldlM_append]
    rfl

/-! ## Appending productions -/

theorem addTo_of_mem {ps : List Production} {p : Production}
    (hmem : p.name ∈ ps.map Production.name)
    (hshape : ∀ q ∈ ps, q.name = p.name → q.lhs ≠ p.lhs) : p.addTo ps = none := by
  obtain ⟨q, hq, hname⟩ := List.mem_map.1 hmem
  have hsome : (ps.find? (·.name = p.name)).isSome = true :=
    List.find?_isSome.2 ⟨q, hq, by simpa using hname⟩
  obtain ⟨existing, hexisting⟩ := Option.isSome_iff_exists.1 hsome
  have hname : existing.name = p.name := by simpa using List.find?_some hexisting
  have hlhs := hshape existing (List.mem_of_find?_eq_some hexisting) hname
  simp [Production.addTo, hexisting, Production.sameShape, hlhs]

/-- Productions with distinct names can be appended exactly if none of the names is taken. -/
theorem foldlM_addTo_eq_some_iff {ps news out : List Production}
    (hnodup : (news.map Production.name).Nodup)
    (hshape : ∀ p ∈ news, ∀ q ∈ ps, q.name = p.name → q.lhs ≠ p.lhs) :
    news.foldlM Production.addTo ps = some out ↔
      (∀ p ∈ news, p.name ∉ ps.map Production.name) ∧ out = ps ++ news := by
  induction news generalizing ps with
  | nil => simp [eq_comm]
  | cons p news ih =>
    rw [List.map_cons, List.nodup_cons] at hnodup
    rw [List.foldlM_cons]
    by_cases hmem : p.name ∈ ps.map Production.name
    · rw [addTo_of_mem hmem (hshape p List.mem_cons_self)]
      constructor
      · intro h
        cases h
      · rintro ⟨hfresh, -⟩
        exact absurd hmem (hfresh p List.mem_cons_self)
    · have hne : ∀ p' ∈ news, p'.name ≠ p.name := fun p' hp' heq ↦
        hnodup.1 (List.mem_map.2 ⟨p', hp', heq⟩)
      have hshape' : ∀ p' ∈ news, ∀ q ∈ ps ++ [p], q.name = p'.name → q.lhs ≠ p'.lhs := by
        intro p' hp' q hq hname
        rcases List.mem_append.1 hq with hq | hq
        · exact hshape p' (List.mem_cons_of_mem _ hp') q hq hname
        · obtain rfl := List.mem_singleton.1 hq
          exact absurd hname.symm (hne p' hp')
      rw [addTo_of_not_mem hmem]
      apply (ih hnodup.2 hshape').trans
      apply and_congr
      · constructor
        · intro hfresh p' hp'
          rcases List.mem_cons.1 hp' with rfl | hp'
          · exact hmem
          · have hlater := hfresh p' hp'
            rw [List.map_append, List.mem_append, not_or] at hlater
            exact hlater.1
        · intro hfresh p' hp'
          simpa [hne p' hp'] using hfresh p' (List.mem_cons_of_mem _ hp')
      · simp

/-- Loading succeeds exactly if all lines can be read and no name of a family is taken. -/
theorem productions?_load_eq_some_iff {lines : List (String × String × Handler V)}
    {sets : FamilySets} {out : List Production} (hlines : (lines.map (·.1)).Nodup)
    (hfamilies : (familiesOf sets).Nodup)
    (hnames : (((familiesOf sets).flatMap productionsOf).map Production.name).Nodup)
    (hshape : ∀ ps, readLines lines = some ps →
      ∀ p ∈ (familiesOf sets).flatMap productionsOf, ∀ q ∈ ps, q.name = p.name → q.lhs ≠ p.lhs) :
    (load {} lines sets).productions? = some out ↔
      ∃ ps, readLines lines = some ps ∧
        (∀ p ∈ (familiesOf sets).flatMap productionsOf, p.name ∉ ps.map Production.name) ∧
        out = ps ++ (familiesOf sets).flatMap productionsOf := by
  have hdefine : (defineAll {} lines).productions? = readLines lines := by
    rw [productions?_defineAll hlines (by simp [productions])]
    simp [productions]
  have hinstall (reg : Registry V) (hreg : reg.installed = []) :
      (reg.installAll (familiesOf sets)).productions? =
        ((familiesOf sets).flatMap productionsOf).foldlM Production.addTo reg.productions :=
    productions?_installAll hfamilies (by simp [hreg])
  rw [load, Registration.productions?_andThen
    (((familiesOf sets).flatMap productionsOf).foldlM Production.addTo)
    fun _ ↦ hinstall _ (installed_defineAll {} lines), hdefine, Option.bind_eq_some_iff]
  apply exists_congr
  intro ps
  apply and_congr_right
  intro hps
  exact foldlM_addTo_eq_some_iff hnames (hshape ps hps)

end Registry

end ParserGenerator
