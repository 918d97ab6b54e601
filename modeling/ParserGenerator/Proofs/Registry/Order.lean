import Mathlib.Data.Set.Function
import ParserGenerator.Proofs.Registry.History

/-!
# The order of registrations

A call that succeeds adds the productions and the family that it asks for, whichever of them were
there before. Whether it succeeds depends on the set of registered productions only: no two of them
and of those that the call asks for may share a name. A row of calls therefore succeeds or fails, and
adds what it adds, in every order.
-/

namespace ParserGenerator

/-- What a registration asks for. -/
structure Demand where
  /-- The productions can be read from their lines. -/
  readable : Prop
  productions : Set Production
  families : Set (String × Family)

namespace Demand

def and (d d' : Demand) : Demand :=
  ⟨d.readable ∧ d'.readable, d.productions ∪ d'.productions, d.families ∪ d'.families⟩

def nothing : Demand := ⟨True, ∅, ∅⟩

theorem and_nothing (d : Demand) : d.and nothing = d := by
  simp [Demand.and, nothing]

def ofCall {V : Type} : Operation V → Demand
  | .define name line _ =>
    ⟨∃ p, Production.parse name line = .ok p, {p | Production.parse name line = .ok p}, ∅⟩
  | .install base family =>
    ⟨True, {p | p ∈ Registry.productionsOf (base, family)}, {(base, family)}⟩

/-- What a row of calls asks for. -/
def ofCalls {V : Type} (calls : List (Operation V)) : Demand where
  readable := ∀ call ∈ calls, (ofCall call).readable
  productions := {p | ∃ call ∈ calls, p ∈ (ofCall call).productions}
  families := {f | ∃ call ∈ calls, f ∈ (ofCall call).families}

theorem ofCalls_cons {V : Type} (call : Operation V) (calls : List (Operation V)) :
    ofCalls (call :: calls) = (ofCall call).and (ofCalls calls) := by
  simp only [ofCalls, Demand.and, List.forall_mem_cons, List.exists_mem_cons_iff]
  rfl

theorem ofCalls_perm {V : Type} {calls calls' : List (Operation V)} (h : calls.Perm calls') :
    ofCalls calls = ofCalls calls' := by
  simp only [ofCalls, h.mem_iff]

end Demand

namespace Registry

variable {V α β : Type} {reg : Registry V}

def known (reg : Registry V) : Set Production := {p | p ∈ reg.productions}

def recorded (reg : Registry V) : Set (String × Family) := {f | f ∈ reg.installed}

/-- A registration succeeds if what it asks for can be read and has names of its own, and it adds
that to the registry. -/
structure Adds (reg : Registry V) (d : Demand) (r : Registration V α) : Prop where
  succeeds_iff : r.Succeeds ↔ d.readable ∧ Set.InjOn Production.name (reg.known ∪ d.productions)
  known_eq : r.Succeeds → r.registry.known = reg.known ∪ d.productions
  recorded_eq : r.Succeeds → r.registry.recorded = reg.recorded ∪ d.families

theorem Adds.andThen {d d' : Demand} {r : Registration V α} {next : Registry V → Registration V β}
    (h : Adds reg d r) (hnext : r.Succeeds → Adds r.registry d' (next r.registry)) :
    Adds reg (d.and d') (r.andThen next) := by
  have hboth (hs : (r.andThen next).Succeeds) : r.Succeeds ∧ (next r.registry).Succeeds :=
    Registration.succeeds_andThen.1 hs
  constructor
  · rw [Registration.succeeds_andThen, Demand.and, ← Set.union_assoc]
    constructor
    · rintro ⟨hr, hs⟩
      have hd := (hnext hr).succeeds_iff.1 hs
      rw [h.known_eq hr] at hd
      exact ⟨⟨(h.succeeds_iff.1 hr).1, hd.1⟩, hd.2⟩
    · rintro ⟨⟨hread, hread'⟩, hinj⟩
      have hr := h.succeeds_iff.2 ⟨hread, hinj.mono Set.subset_union_left⟩
      refine ⟨hr, (hnext hr).succeeds_iff.2 ⟨hread', ?_⟩⟩
      rw [h.known_eq hr]
      exact hinj
  · intro hs
    obtain ⟨hr, hs'⟩ := hboth hs
    rw [(Registration.andThen_of_succeeds hr).1, (hnext hr).known_eq hs', h.known_eq hr]
    exact Set.union_assoc ..
  · intro hs
    obtain ⟨hr, hs'⟩ := hboth hs
    rw [(Registration.andThen_of_succeeds hr).1, (hnext hr).recorded_eq hs', h.recorded_eq hr]
    exact Set.union_assoc ..

theorem Consistent.injOn (h : Consistent reg) : Set.InjOn Production.name reg.known :=
  fun _ hp _ hq ↦ h.eq_of_name_eq hp hq

/-- A production fits a registry if the one of its name is the same. -/
theorem Consistent.injOn_union_singleton_iff (h : Consistent reg) (p : Production) :
    Set.InjOn Production.name (reg.known ∪ {p}) ↔
      ∀ q ∈ reg.productions, q.name = p.name → q = p := by
  constructor
  · intro hinj q hq hname
    exact hinj (.inl hq) (.inr rfl) hname
  · intro hsame q hq q' hq' hname
    rcases hq with hq | rfl <;> rcases hq' with hq' | rfl
    · exact h.eq_of_name_eq hq hq' hname
    · exact hsame q hq hname
    · exact (hsame q' hq' hname.symm).symm
    · rfl

theorem recorded_insert (reg : Registry V) (p : Production) (handler : Handler V) :
    (reg.insert p handler).registry.recorded = reg.recorded := by
  rw [recorded, installed_insert]
  rfl

theorem adds_insert (h : Consistent reg) (p : Production) (handler : Handler V) :
    Adds reg ⟨True, {p}, ∅⟩ (reg.insert p handler) := by
  have hrecorded : (reg.insert p handler).registry.recorded = reg.recorded ∪ ∅ := by
    rw [recorded_insert, Set.union_empty]
  obtain ⟨hnew, hs, hreg⟩ | ⟨q, hq, hname, hreg, hs⟩ := insert_cases reg p handler
  · refine ⟨?_, ?_, fun _ ↦ hrecorded⟩
    · rw [h.injOn_union_singleton_iff]
      apply iff_of_true hs
      refine ⟨trivial, ?_⟩
      intro q hq hname
      exact absurd (List.mem_map.2 ⟨q, hq, hname⟩) hnew
    · intro _
      ext q
      simp [known, hreg, productions, or_comm]
  · refine ⟨?_, ?_, fun _ ↦ hrecorded⟩
    · rw [h.injOn_union_singleton_iff, hs, true_and]
      constructor
      · rintro rfl q' hq' hname'
        exact h.eq_of_name_eq hq' hq hname'
      · intro hsame
        exact hsame q hq hname
    · intro hsucceeds
      have hmem : p ∈ reg.known := hs.1 hsucceeds ▸ hq
      rw [hreg]
      exact (Set.union_eq_left.2 (Set.singleton_subset_iff.2 hmem)).symm

theorem adds_nothing (h : Consistent reg) (a : α) : Adds reg .nothing ⟨reg, [], .ok a⟩ := by
  constructor
  · simp only [Demand.nothing, Set.union_empty, h.injOn, and_true, iff_true]
    exact ⟨a, rfl⟩
  · intro _
    exact (Set.union_empty _).symm
  · intro _
    exact (Set.union_empty _).symm

theorem adds_record (h : Consistent reg) (f : String × Family) (a : α) :
    Adds reg ⟨True, ∅, {f}⟩ ⟨reg.record f, [], .ok a⟩ := by
  constructor
  · simp only [Set.union_empty, h.injOn, and_true, iff_true]
    exact ⟨a, rfl⟩
  · intro _
    exact (Set.union_empty _).symm
  · intro _
    ext f'
    simp [recorded, record, or_comm]

/-! ## Calls -/

theorem adds_define (h : Consistent reg) (name line : String) (handler : Handler V) :
    Adds reg (.ofCall (.define name line handler)) (reg.define name line handler) := by
  unfold define
  cases hparse : Production.parse name line with
  | error e =>
    refine ⟨iff_of_false nofun ?_, nofun, nofun⟩
    rintro ⟨⟨p, hp⟩, -⟩
    cases hparse.symm.trans hp
  | ok p =>
    have hdemand : Demand.ofCall (.define name line handler) = ⟨True, {p}, ∅⟩ := by
      simp only [Demand.ofCall, hparse, Except.ok.injEq]
      congr 1
      · simp
      · ext q
        exact eq_comm
    rw [hdemand]
    exact adds_insert h p handler

variable [SemanticValue V]

theorem adds_installNew (h : Consistent reg) (base : String) (family : Family) :
    Adds reg (.ofCall (V := V) (.install base family)) (reg.installNew base family) := by
  have hdemand : Demand.ofCall (V := V) (.install base family) =
      .and ⟨True, {(familyProductions family base).1}, ∅⟩
        (.and ⟨True, {(familyProductions family base).2}, ∅⟩ ⟨True, ∅, {(base, family)}⟩) := by
    simp only [Demand.ofCall, Demand.and, productionsOf, Set.empty_union, Set.union_empty, and_self]
    congr 1
    ext p
    simp [or_comm]
  rw [hdemand]
  apply (adds_insert h _ _).andThen
  intro _
  have hfirst := h.insert (familyProductions family base).1 (familyHandlers (V := V) family).1
  apply (adds_insert hfirst _ _).andThen
  intro _
  exact adds_record (hfirst.insert _ _) (base, family) true

/-- A family on record asks for nothing new. -/
theorem adds_install (h : Consistent reg) (base : String) (family : Family) :
    Adds reg (.ofCall (V := V) (.install base family)) (reg.install base family) := by
  by_cases hf : (base, family) ∈ reg.installed
  · have hknown : {p | p ∈ productionsOf (base, family)} ⊆ reg.known := h.derived _ hf
    have hrecorded : {(base, family)} ⊆ reg.recorded := Set.singleton_subset_iff.2 hf
    rw [install_of_mem hf]
    constructor
    · rw [Demand.ofCall, Set.union_eq_left.2 hknown]
      exact iff_of_true ⟨false, rfl⟩ ⟨trivial, h.injOn⟩
    · intro _
      exact (Set.union_eq_left.2 hknown).symm
    · intro _
      exact (Set.union_eq_left.2 hrecorded).symm
  · obtain ⟨hs, hknown, hrecorded⟩ := adds_installNew h base family
    rw [install_of_not_mem hf]
    exact ⟨hs, hknown, hrecorded⟩

theorem adds_perform (h : Consistent reg) (call : Operation V) :
    Adds reg (.ofCall call) (reg.perform call) := by
  cases call with
  | define name line handler => exact adds_define h name line handler
  | install base family =>
    rw [← Demand.and_nothing (.ofCall _), perform]
    apply (adds_install h base family).andThen
    intro _
    exact adds_nothing (h.install base family) ()

/-- Carries out calls in a row, up to the first that fails. -/
def performAll (reg : Registry V) : List (Operation V) → Registration V Unit
  | [] => ⟨reg, [], .ok ()⟩
  | call :: calls => (reg.perform call).andThen fun reg ↦ reg.performAll calls

theorem adds_performAll (h : Consistent reg) (calls : List (Operation V)) :
    Adds reg (.ofCalls calls) (reg.performAll calls) := by
  induction calls generalizing reg with
  | nil =>
    have hdemand : Demand.ofCalls ([] : List (Operation V)) = .nothing := by
      simp [Demand.ofCalls, Demand.nothing]
    rw [hdemand]
    exact adds_nothing h ()
  | cons call calls ih =>
    rw [Demand.ofCalls_cons, performAll]
    apply (adds_perform h call).andThen
    intro _
    exact ih (h.perform call)

/-- Calls that all succeed after some history, in a row, also succeed in every other order. The
registry then has the same productions and the same families on record. -/
theorem performAll_perm (history : List (Operation V)) {calls calls' : List (Operation V)}
    (hperm : calls.Perm calls') (hok : ((after {} history).performAll calls).answer = .ok ()) :
    ((after {} history).performAll calls').answer = .ok () ∧
    (∀ p, p ∈ ((after {} history).performAll calls').registry.productions ↔
      p ∈ ((after {} history).performAll calls).registry.productions) ∧
    ∀ f, f ∈ ((after {} history).performAll calls').registry.installed ↔
      f ∈ ((after {} history).performAll calls).registry.installed := by
  have hreg : Consistent (after ({} : Registry V) history) := consistent_empty.after history
  have hadds := adds_performAll hreg calls
  have hadds' := adds_performAll hreg calls'
  rw [← Demand.ofCalls_perm hperm] at hadds'
  have hs := Registration.succeeds_iff_answer.2 hok
  have hs' := hadds'.succeeds_iff.2 (hadds.succeeds_iff.1 hs)
  have hknown := (hadds'.known_eq hs').trans (hadds.known_eq hs).symm
  have hrecorded := (hadds'.recorded_eq hs').trans (hadds.recorded_eq hs).symm
  exact ⟨Registration.succeeds_iff_answer.1 hs', Set.ext_iff.1 hknown, Set.ext_iff.1 hrecorded⟩

/-- Calls that overlap: a family that is installed twice, and lines that say what a family derives. -/
def overlappingCalls : List (Operation Value) :=
  [.define "p_a_list_2" "a_list : a ',' a_list" .noop, .install "a" .commaList,
    .install "b" .optional, .install "a" .commaList, .define "p_b_opt_1" "b_opt :" .noop]

theorem performAll_perm_overlapping :
    let reg : Registry Value := after {} [.define "p_a_list_1" "a_list : a" .noop]
    overlappingCalls.Perm overlappingCalls.reverse ∧
    (reg.performAll overlappingCalls).answer = .ok () ∧
    (reg.performAll overlappingCalls.reverse).answer = .ok () ∧
    (reg.performAll overlappingCalls).registry.productions ≠
      (reg.performAll overlappingCalls.reverse).registry.productions ∧
    (∀ p, p ∈ (reg.performAll overlappingCalls.reverse).registry.productions ↔
      p ∈ (reg.performAll overlappingCalls).registry.productions) ∧
    ∀ f, f ∈ (reg.performAll overlappingCalls.reverse).registry.installed ↔
      f ∈ (reg.performAll overlappingCalls).registry.installed := by
  intro reg
  have hperm : overlappingCalls.Perm overlappingCalls.reverse := (List.reverse_perm _).symm
  have hok : (reg.performAll overlappingCalls).answer = .ok () := by decide +kernel
  obtain ⟨hok', hproductions, hinstalled⟩ := performAll_perm _ hperm hok
  exact ⟨hperm, hok, hok', by decide +kernel, hproductions, hinstalled⟩

end Registry

end ParserGenerator
