import ParserGenerator.Proofs.Parsing.Values

/-!
# Families keep the order of the source

The productions of a sequence are recursive on the right: the base case is reduced on the last item,
and every step puts one item in front of the sequence of those behind it. An installed family whose
names were new has its own handlers under them, whatever is registered later, so items that are
reduced from right to left come out in their order in the source, and items that are sequences
themselves are not opened.
-/

namespace ParserGenerator

/-- The numbers of symbols in the two productions of a family. -/
def Family.arities : Family → Nat × Nat
  | .optional => (0, 1)
  | .list delimiter => (1, if delimiter = "" then 2 else 3)
  | .string => (1, 2)

theorem Registration.answer_andThen {V α β : Type} {r : Registration V α}
    {next : Registry V → Registration V β} (h : r.Succeeds) :
    (r.andThen next).answer = (next r.registry).answer := by
  obtain ⟨a, ha⟩ := h
  unfold andThen
  simp only [ha]

namespace Registry

variable {V : Type} [SemanticValue V] {reg : Registry V} {base : String} {family : Family}

/-- Reduces items by the productions of a derived nonterminal from right to left. An item may have a
delimiter of its own behind it. -/
def foldDelimited (reg : Registry V) (derived : String) :
    List (V × Option V) → V → Except (Stop DefinitionError) V
  | [], last => (reg.reduce ("p_" ++ derived ++ "_1") [last]).1
  | (item, delimiter) :: rest, last => do
    let tail ← reg.foldDelimited derived rest last
    (reg.reduce ("p_" ++ derived ++ "_2") (item :: (delimiter.toList ++ [tail]))).1

theorem foldItems_eq (reg : Registry V) (derived : String) (delimiter : Option V) (items : List V)
    (last : V) :
    (reg.foldItems derived delimiter (items ++ [last])).1 =
      reg.foldDelimited derived (items.map (·, delimiter)) last := by
  have hnames : derivedHandler derived 1 = "p_" ++ derived ++ "_1" ∧
      derivedHandler derived 2 = "p_" ++ derived ++ "_2" := by
    rw [derivedHandler_one, derivedHandler_two, String.append_assoc, String.append_assoc]
    exact ⟨rfl, rfl⟩
  induction items with
  | nil => rw [List.nil_append, foldItems, hnames.1, List.map_nil, foldDelimited]
  | cons item items ih =>
    obtain ⟨next, rest, hrest⟩ : ∃ next rest, items ++ [last] = next :: rest :=
      List.exists_cons_of_ne_nil (List.concat_ne_nil last items)
    rw [List.cons_append, hrest, foldItems, ← hrest, List.map_cons, foldDelimited, ← ih, hnames.2]
    obtain ⟨result, events⟩ := reg.foldItems derived delimiter (items ++ [last])
    cases result <;> rfl

/-! ## Installed handlers -/

omit [SemanticValue V] in
theorem insert_of_not_mem {p : Production} (h : p.name ∉ reg.productions.map Production.name)
    (handler : Handler V) :
    (reg.insert p handler).Succeeds ∧
      (reg.insert p handler).registry = { reg with entries := reg.entries ++ [⟨p, handler⟩] } := by
  obtain ⟨-, hs, hreg⟩ | ⟨q, hq, hname, -⟩ := insert_cases reg p handler
  · exact ⟨hs, hreg⟩
  · exact absurd (List.mem_map.2 ⟨q, hq, hname⟩) h

omit [SemanticValue V] in
theorem insert_insert_of_not_mem {p q : Production}
    (hp : p.name ∉ reg.productions.map Production.name)
    (hq : q.name ∉ reg.productions.map Production.name) (hne : q.name ≠ p.name)
    (handler handler' : Handler V) :
    (reg.insert p handler).Succeeds ∧
      ((reg.insert p handler).registry.insert q handler').Succeeds ∧
      ((reg.insert p handler).registry.insert q handler').registry =
        { reg with entries := reg.entries ++ [⟨p, handler⟩, ⟨q, handler'⟩] } := by
  obtain ⟨hok, hreg⟩ := insert_of_not_mem hp handler
  have hq' : q.name ∉ (reg.insert p handler).registry.productions.map Production.name := by
    rw [hreg]
    simpa [productions, hne] using hq
  obtain ⟨hok', hreg'⟩ := insert_of_not_mem hq' handler'
  refine ⟨hok, hok', hreg'.trans ?_⟩
  rw [hreg]
  simp only [List.append_assoc, List.cons_append, List.nil_append]

/-- Neither of the names that a family derives is taken. -/
def IsFree (reg : Registry V) (base : String) (family : Family) : Prop :=
  "p_" ++ family.derived base ++ "_1" ∉ reg.productions.map Production.name ∧
    "p_" ++ family.derived base ++ "_2" ∉ reg.productions.map Production.name

instance (reg : Registry V) (base : String) (family : Family) :
    Decidable (reg.IsFree base family) :=
  inferInstanceAs (Decidable (_ ∧ _))

/-- A family whose names are free is installed with its handlers. -/
theorem install_of_isFree (hreg : Consistent reg) (h : reg.IsFree base family) :
    (reg.install base family).answer = .ok true ∧
      (reg.install base family).registry.entries = reg.entries ++ familyEntries family base := by
  obtain ⟨hfirst, hsecond⟩ := h
  rw [← (name_familyProductions family base).1] at hfirst
  rw [← (name_familyProductions family base).2] at hsecond
  have hnew : (base, family) ∉ reg.installed := by
    intro hmem
    exact hfirst (List.mem_map_of_mem (hreg.derived _ hmem _ List.mem_cons_self))
  obtain ⟨hok, hok', hboth⟩ := insert_insert_of_not_mem hfirst hsecond
    (name_familyProductions_ne family base).symm (familyHandlers family).1 (familyHandlers family).2
  rw [install_of_not_mem hnew]
  unfold installNew
  constructor
  · dsimp only
    rw [Registration.answer_andThen hok, Registration.answer_andThen hok']
  · dsimp only
    rw [(Registration.andThen_of_succeeds hok).1, (Registration.andThen_of_succeeds hok').1]
    exact congrArg Registry.entries hboth

theorem isPrefix_after (reg : Registry V) (calls : List (Operation V)) :
    reg.entries <+: (reg.after calls).entries := by
  induction calls generalizing reg with
  | nil => exact List.prefix_rfl
  | cons call calls ih => exact (isPrefix_perform reg call).trans (ih _)

/-- Later calls leave an installed family its handlers. -/
theorem hasFamily_after (hreg : Consistent reg) (h : reg.IsFree base family)
    (calls : List (Operation V)) :
    HasFamily ((reg.install base family).registry.after calls) family base := by
  have hconsistent := (hreg.install base family).after calls
  have hkept := isPrefix_after (reg.install base family).registry calls
  rw [(install_of_isFree hreg h).2] at hkept
  have hfind {e : Registered V} (he : e ∈ familyEntries family base) :
      ((reg.install base family).registry.after calls).find? e.production.name = some e :=
    find?_of_mem hconsistent.nodup (hkept.subset (List.mem_append_right _ he))
  exact ⟨hfind List.mem_cons_self, hfind (List.mem_cons_of_mem _ List.mem_cons_self)⟩

/-! ## Reductions -/

theorem reduce_of_find? {name : String} {entry : Registered V} (h : reg.find? name = some entry)
    (children : List V) :
    (reg.reduce name children).1 =
      if children.length = entry.production.rhs.length then
        (entry.handler.run children).elim (.error .crash) fun out ↦ .ok out.1
      else .error (.error (.arity name entry.production.rhs.length children.length)) := by
  rw [reduce, h]
  dsimp only
  split
  · cases entry.handler.run children <;> rfl
  · rfl

theorem length_rightHandSides (family : Family) (base : String) :
    ((family.rightHandSides base).1.length, (family.rightHandSides base).2.length) =
      family.arities := by
  cases family with
  | optional | string => rfl
  | list delimiter =>
    by_cases h : delimiter = "" <;> simp [Family.rightHandSides, Family.arities, h]

theorem familyProductions_eq (family : Family) (base : String) :
    familyProductions family base =
      (⟨"p_" ++ family.derived base ++ "_1", family.derived base,
          (family.rightHandSides base).1, none⟩,
        ⟨"p_" ++ family.derived base ++ "_2", family.derived base,
          (family.rightHandSides base).2, none⟩) := by
  have h := productionsOf_eq base family
  rw [productionsOf, List.cons.injEq, List.cons.injEq] at h
  exact Prod.ext h.1 h.2.1

/-- An installed family runs its handlers on the right numbers of children. -/
theorem HasFamily.reduce_eq (h : HasFamily reg family base) (children : List V) :
    ((reg.reduce ("p_" ++ family.derived base ++ "_1") children).1 =
      if children.length = family.arities.1 then
        ((familyHandlers family).1.run children).elim (.error .crash) fun out ↦ .ok out.1
      else .error (.error (.arity ("p_" ++ family.derived base ++ "_1") family.arities.1
        children.length))) ∧
    (reg.reduce ("p_" ++ family.derived base ++ "_2") children).1 =
      if children.length = family.arities.2 then
        ((familyHandlers family).2.run children).elim (.error .crash) fun out ↦ .ok out.1
      else .error (.error (.arity ("p_" ++ family.derived base ++ "_2") family.arities.2
        children.length)) := by
  obtain ⟨hfirst, hsecond⟩ := h
  rw [familyProductions_eq] at hfirst hsecond
  rw [reduce_of_find? hfirst, reduce_of_find? hsecond, ← length_rightHandSides family base]
  exact ⟨rfl, rfl⟩

section Handlers

theorem run_present (v : V) : Handler.present.run [v] = some (v, []) := by
  simp [Handler.run, Handler.present, Handler.move, Reduction.ofChildren, Reduction.take?_one,
    Reduction.set]

theorem run_single (v : V) : Handler.single.run [v] = some (ofSeq [v], []) := by
  simp [Handler.run, Handler.single, Reduction.ofChildren, Reduction.take?_one, Reduction.set]

theorem exists_run_first (family : Family) {children : List V}
    (h : children.length = family.arities.1) :
    ∃ out, (familyHandlers family).1.run children = some out := by
  cases family with
  | optional => exact ⟨_, rfl⟩
  | list delimiter | string =>
    obtain ⟨v, rfl⟩ := List.length_eq_one_iff.1 h
    exact ⟨_, run_single v⟩

theorem exists_run_second (family : Family) {children : List V}
    (h : children.length = family.arities.2) :
    ∃ out, (familyHandlers family).2.run children = some out := by
  have hcons (hlen : 2 ≤ children.length) : ∃ out, Handler.cons.run children = some out := by
    obtain ⟨v, rest, rfl⟩ := List.exists_cons_of_length_pos (Nat.lt_of_lt_of_le Nat.two_pos hlen)
    obtain rfl | ⟨between, tail, rfl⟩ := List.eq_nil_or_concat rest
    · simp at hlen
    · rw [List.concat_eq_append]
      exact ⟨_, Handler.run_cons_append v between tail⟩
  cases family with
  | optional =>
    obtain ⟨v, rfl⟩ := List.length_eq_one_iff.1 h
    exact ⟨_, run_present v⟩
  | list delimiter =>
    apply hcons
    rw [h, Family.arities]
    dsimp only
    split <;> decide
  | string => exact hcons (Nat.le_of_eq h.symm)

end Handlers

section Sequences

variable (hfamily : family ≠ .optional)

include hfamily

theorem familyHandlers_of_ne :
    (familyHandlers family : Handler V × Handler V) = (.single, .cons) := by
  cases family <;> first | rfl | exact absurd rfl hfamily

omit [SemanticValue V] in
theorem arities_fst_of_ne : family.arities.1 = 1 := by
  cases family <;> first | rfl | exact absurd rfl hfamily

omit [SemanticValue V] in
/-- A delimiter stands between an item and its tail just if the family has one. -/
theorem length_of_isSome (item tail : V) {delimiter : Option V}
    (h : delimiter.isSome = family.delimiter?.isSome) :
    (item :: (delimiter.toList ++ [tail])).length = family.arities.2 := by
  cases family with
  | optional => exact absurd rfl hfamily
  | list d =>
    by_cases hd : d = "" <;> cases delimiter <;> simp_all [Family.delimiter?, Family.arities]
  | string => cases delimiter <;> simp_all [Family.delimiter?, Family.arities]

/-- Items that are reduced from right to left come out in their order. -/
theorem HasFamily.foldDelimited_eq (h : HasFamily reg family base)
    (hseq : ∀ items : List V, seq? (ofSeq items) = some items) (items : List (V × Option V))
    (hdelimiters : ∀ i ∈ items, i.2.isSome = family.delimiter?.isSome) (last : V) :
    reg.foldDelimited (family.derived base) items last =
      .ok (ofSeq (items.map Prod.fst ++ [last])) := by
  induction items with
  | nil =>
    rw [foldDelimited, (h.reduce_eq _).1, familyHandlers_of_ne hfamily, run_single]
    exact if_pos (arities_fst_of_ne hfamily).symm
  | cons i items ih =>
    obtain ⟨item, delimiter⟩ := i
    rw [List.forall_mem_cons] at hdelimiters
    have hstep := (h.reduce_eq (item :: (delimiter.toList ++
      [ofSeq (items.map Prod.fst ++ [last])]))).2
    rw [if_pos (length_of_isSome hfamily item _ hdelimiters.1), familyHandlers_of_ne hfamily,
      Handler.run_cons _ _ _ (hseq _)] at hstep
    rw [foldDelimited, ih hdelimiters.2]
    exact hstep

end Sequences

/-- Under free names a family can be installed, and later calls do not change what its productions
do: a sequence of any number of items has them in the order of the source, items that are sequences
or empty included; an optional symbol is empty or the symbol; another number of children than the
production has symbols is reported. -/
theorem reduce_installed (hseq : ∀ items : List V, seq? (ofSeq items) = some items)
    (earlier : List (Operation V)) (base : String) (family : Family)
    (hfree : (after {} earlier).IsFree base family) (later : List (Operation V)) :
    let installation := (after {} earlier).install base family
    let reg := installation.registry.after later
    let first := "p_" ++ family.derived base ++ "_1"
    let second := "p_" ++ family.derived base ++ "_2"
    installation.answer = .ok true ∧
    (family ≠ .optional →
      (∀ items last, (∀ i ∈ items, i.2.isSome = family.delimiter?.isSome) →
        reg.foldDelimited (family.derived base) items last =
          .ok (ofSeq (items.map Prod.fst ++ [last]))) ∧
      ∀ delimiter items, items ≠ [] → delimiter.isSome = family.delimiter?.isSome →
        (reg.foldItems (family.derived base) delimiter items).1 = .ok (ofSeq items)) ∧
    (family = .optional →
      (reg.reduce first []).1 = .ok null ∧ ∀ v, (reg.reduce second [v]).1 = .ok v) ∧
    ∀ children,
      (children.length ≠ family.arities.1 →
        (reg.reduce first children).1 =
          .error (.error (.arity first family.arities.1 children.length))) ∧
      (children.length ≠ family.arities.2 →
        (reg.reduce second children).1 =
          .error (.error (.arity second family.arities.2 children.length))) ∧
      (reg.reduce first children).1 ≠ .error .crash ∧
      (reg.reduce second children).1 ≠ .error .crash := by
  intro installation reg first second
  have hconsistent : Consistent (after {} earlier) := consistent_empty.after earlier
  have h : HasFamily reg family base := hasFamily_after hconsistent hfree later
  refine ⟨(install_of_isFree hconsistent hfree).1, ?_, ?_, ?_⟩
  · intro hfamily
    have hfold := h.foldDelimited_eq hfamily hseq
    refine ⟨fun items last hdelimiters ↦ hfold items hdelimiters last, ?_⟩
    intro delimiter items hne hdelimiter
    obtain ⟨init, last, rfl⟩ := (List.eq_nil_or_concat items).resolve_left hne
    rw [List.concat_eq_append, foldItems_eq, hfold, List.map_map]
    · exact congrArg (fun init ↦ Except.ok (ofSeq (init ++ [last]))) (List.map_id init)
    · simpa using fun _ _ ↦ hdelimiter
  · rintro rfl
    refine ⟨(h.reduce_eq []).1, fun v ↦ ?_⟩
    rw [(h.reduce_eq [v]).2, familyHandlers, run_present]
    rfl
  · intro children
    refine ⟨fun hlen ↦ ?_, fun hlen ↦ ?_, ?_, ?_⟩
    · rw [(h.reduce_eq children).1, if_neg hlen]
    · rw [(h.reduce_eq children).2, if_neg hlen]
    · rw [(h.reduce_eq children).1]
      split
      · next hlen =>
        obtain ⟨out, hout⟩ := exists_run_first family hlen
        rw [hout]
        nofun
      · nofun
    · rw [(h.reduce_eq children).2]
      split
      · next hlen =>
        obtain ⟨out, hout⟩ := exists_run_second family hlen
        rw [hout]
        nofun
      · nofun

/-- Sequences and empty values as items of a list, with other families and a refused one after
it. -/
theorem reduce_installed_nested :
    let earlier : List (Operation Value) := [.define "p_a_list" "a_list : a" .noop]
    let later : List (Operation Value) :=
      [.install "a" .string, .install "a" (.list "','"), .define "p_a_list_2" "b : c" .noop]
    let reg := ((after {} earlier).install "a" (.list "';'")).registry.after later
    ((∀ items : List Value, seq? (ofSeq items) = some items) ∧
      (after {} earlier).IsFree "a" (.list "';'") ∧ Family.list "';'" ≠ .optional) ∧
    reg.foldDelimited "a_list" [(.seq [.atom "x"], some (.atom ";")), (.null, some .null)]
        (.seq []) = .ok (.seq [.seq [.atom "x"], .null, .seq []]) ∧
      (reg.reduce "p_a_list_2" [.null]).1 = .error (.error (.arity "p_a_list_2" 3 1)) := by
  intro earlier later reg
  have hfree : (after {} earlier).IsFree "a" (.list "';'") := by decide +kernel
  obtain ⟨-, hsequence, -, harity⟩ :=
    reduce_installed (fun _ ↦ rfl) earlier "a" (.list "';'") hfree later
  exact ⟨⟨fun _ ↦ rfl, hfree, nofun⟩, (hsequence nofun).1 _ _ (by simp [Family.delimiter?]),
    (harity _).2.1 (by decide)⟩

end Registry

end ParserGenerator
