import Mathlib.Data.List.Nodup
import ParserGenerator.Parsing.Scope

/-!
# Scopes nest

A stack of scopes is used by three calls: a scope is opened, the innermost one is left, and a name
is declared. A call may fail, and the calls after it are made all the same. Whatever the calls are,
a scope is open, and no scope holds a name twice, so the kind of a name is that of its innermost
declaration. Calls that leave every scope they open, and no other, change nothing outside of the
scope they are made in.

A stack has its innermost scope apart and thereby cannot be empty. That this costs nothing is stated
with rows of scopes, which can: the complaint about an empty row is never made.
-/

namespace ParserGenerator

/-- A call on a stack of scopes. -/
inductive ScopeCall where
  | push
  | pop
  | declare (name : String) (isType : Bool) (coord : Coord)
deriving DecidableEq

/-- Every scope that the calls open is left by them, and they leave no other one. -/
inductive ScopeCall.Balanced : List ScopeCall → Prop
  | nil : Balanced []
  | declare (name : String) (isType : Bool) (coord : Coord) {calls : List ScopeCall}
    (h : Balanced calls) : Balanced (.declare name isType coord :: calls)
  | block {inner calls : List ScopeCall} (hinner : Balanced inner) (h : Balanced calls) :
    Balanced (.push :: inner ++ .pop :: calls)

/-! ## Rows of scopes -/

/-- Open scopes from the outside to the inside, of which there may be none. -/
abbrev ScopeRow := List Scope

namespace ScopeRow

/-- The complaint about a declaration where no scope is open. -/
def noScope (coord : Coord) : ParseError := .syntactic coord "no scope is open"

/-- The answer to a call and the row after it. -/
def perform (row : ScopeRow) : ScopeCall → Except ParseError Unit × ScopeRow
  | .push => (.ok (), row ++ [[]])
  | .pop => (.ok (), if 1 < row.length then row.dropLast else row)
  | .declare name isType coord =>
    match row.getLast? with
    | none => (.error (noScope coord), row)
    | some scope =>
      match scope.lookup name with
      | some before =>
        if before = isType then (.ok (), row)
        else (.error (.syntactic coord (ScopeStack.redeclared name isType)), row)
      | none => (.ok (), row.dropLast ++ [scope ++ [(name, isType)]])

/-- The row after calls in a row. -/
def after (row : ScopeRow) (calls : List ScopeCall) : ScopeRow :=
  calls.foldl (fun row call ↦ (row.perform call).2) row

def isType (row : ScopeRow) (name : String) : Bool :=
  (row.reverse.findSome? (·.lookup name)).getD false

end ScopeRow

namespace Scope

variable {scope : Scope} {name : String} {isType : Bool}

/-- The names that a scope holds. -/
def names (scope : Scope) : List String := scope.map Prod.fst

theorem lookup_eq_none : scope.lookup name = none ↔ name ∉ scope.names := by
  simp only [List.lookup_eq_none_iff, names, List.mem_map, bne_iff_ne, not_exists, not_and]
  exact forall₂_congr fun p _ ↦ ne_comm

/-- A scope that holds no name twice gives every name the kind that it is declared with. -/
theorem lookup_eq_some (h : scope.names.Nodup) :
    scope.lookup name = some isType ↔ (name, isType) ∈ scope := by
  rw [List.lookup_eq_some_iff]
  constructor
  · rintro ⟨before, later, rfl, -⟩
    simp
  · intro hmem
    obtain ⟨before, later, rfl⟩ := List.append_of_mem hmem
    refine ⟨before, later, rfl, fun p hp ↦ bne_iff_ne.2 ?_⟩
    rintro rfl
    have hdisjoint : p.1 ∉ before.map Prod.fst := by
      simp only [names, List.map_append, List.map_cons] at h
      exact fun hbefore ↦ (List.nodup_append.1 h).2.2 _ hbefore _ List.mem_cons_self rfl
    exact hdisjoint (List.mem_map_of_mem hp)

theorem nodup_append_singleton (h : scope.names.Nodup) (hname : name ∉ scope.names) :
    (names (scope ++ [(name, isType)])).Nodup := by
  simpa [names] using List.Nodup.concat hname h

end Scope

namespace ScopeStack

/-! ## Calls -/

/-- The answer to a call and the stack after it. -/
def perform (s : ScopeStack) : ScopeCall → Except ParseError Unit × ScopeStack
  | .push => (.ok (), s.push)
  | .pop => (.ok (), s.pop)
  | .declare name isType coord =>
    match s.declare name isType coord with
    | .ok after => (.ok (), after)
    | .error e => (.error e, s)

/-- The stack after calls in a row. A call that fails does not keep the later ones from being
made. -/
def after (s : ScopeStack) (calls : List ScopeCall) : ScopeStack :=
  calls.foldl (fun s call ↦ (s.perform call).2) s

theorem after_append (s : ScopeStack) (calls later : List ScopeCall) :
    s.after (calls ++ later) = (s.after calls).after later := List.foldl_append

variable {s : ScopeStack} {name : String} {isType before : Bool}

theorem perform_declare_of_lookup (coord : Coord) (h : s.innermost.lookup name = some before) :
    s.perform (.declare name isType coord) =
      (if before = isType then .ok ()
        else .error (.syntactic coord (redeclared name isType)), s) := by
  by_cases heq : before = isType <;> simp [perform, declare, h, heq]

theorem perform_declare_of_lookup_none (coord : Coord) (h : s.innermost.lookup name = none) :
    s.perform (.declare name isType coord) =
      (.ok (), { s with innermost := s.innermost ++ [(name, isType)] }) := by
  simp [perform, declare, h]

theorem perform_of_error {call : ScopeCall} {e : ParseError} (h : (s.perform call).1 = .error e) :
    (s.perform call).2 = s := by
  cases call with
  | push => cases h
  | pop => cases h
  | declare name isType coord =>
    cases hlookup : s.innermost.lookup name with
    | none =>
      rw [perform_declare_of_lookup_none coord hlookup] at h
      cases h
    | some before => rw [perform_declare_of_lookup coord hlookup]

/-! ## Stacks as rows -/

/-- The open scopes, the innermost last. -/
def row (s : ScopeStack) : ScopeRow := s.scopes.reverse

theorem row_eq (s : ScopeStack) : s.row = s.outer.reverse ++ [s.innermost] := List.reverse_cons

/-- On a row, a call does what it does on the stack. -/
theorem perform_row (s : ScopeStack) (call : ScopeCall) :
    s.row.perform call = ((s.perform call).1, (s.perform call).2.row) := by
  cases call with
  | push => simp [ScopeRow.perform, perform, push, row, scopes]
  | pop =>
    obtain ⟨innermost, outer⟩ := s
    cases outer with
    | nil => simp [ScopeRow.perform, perform, pop, row_eq]
    | cons next rest => simp [ScopeRow.perform, perform, pop, row_eq]
  | declare name isType coord =>
    cases h : s.innermost.lookup name with
    | none => simp [ScopeRow.perform, row_eq, perform_declare_of_lookup_none coord h, h]
    | some before =>
      by_cases heq : before = isType <;>
        simp [ScopeRow.perform, row_eq, perform_declare_of_lookup coord h, h, heq]

theorem after_row (s : ScopeStack) (calls : List ScopeCall) :
    s.row.after calls = (s.after calls).row := by
  induction calls generalizing s with
  | nil => rfl
  | cons call calls ih =>
    calc s.row.after (call :: calls)
      _ = (s.row.perform call).2.after calls := rfl
      _ = (s.perform call).2.row.after calls := by rw [perform_row]
      _ = (s.after (call :: calls)).row := ih _

theorem isType_row (s : ScopeStack) (name : String) : s.row.isType name = s.isType name := by
  simp [ScopeRow.isType, ScopeStack.isType, row]

theorem redeclared_ne (name : String) (isType : Bool) :
    redeclared name isType ≠ "no scope is open" := by
  -- the texts differ in their first characters
  intro h
  have hhead := congrArg (fun text : String ↦ text.toList.head?) h
  cases isType <;> simp [redeclared] at hhead

theorem perform_ne_noScope (s : ScopeStack) (call : ScopeCall) (coord : Coord) :
    (s.perform call).1 ≠ .error (ScopeRow.noScope coord) := by
  cases call with
  | push => nofun
  | pop => nofun
  | declare name isType coord' =>
    cases h : s.innermost.lookup name with
    | none => simp [perform_declare_of_lookup_none coord' h]
    | some before =>
      rw [perform_declare_of_lookup coord' h]
      split
      · nofun
      · simp [ScopeRow.noScope, redeclared_ne]

/-! ## No name twice -/

/-- No scope holds a name twice. -/
def IsDistinct (s : ScopeStack) : Prop := ∀ scope ∈ s.scopes, scope.names.Nodup

theorem isDistinct_empty : IsDistinct {} := by
  simp [IsDistinct, scopes, Scope.names]

theorem IsDistinct.perform (h : s.IsDistinct) (call : ScopeCall) :
    (s.perform call).2.IsDistinct := by
  obtain ⟨hinnermost, houter⟩ := List.forall_mem_cons.1 h
  cases call with
  | push => exact List.forall_mem_cons.2 ⟨List.nodup_nil, h⟩
  | pop =>
    obtain ⟨innermost, outer⟩ := s
    cases outer with
    | nil => exact h
    | cons next rest => exact houter
  | declare name isType coord =>
    cases hlookup : s.innermost.lookup name with
    | some before =>
      rw [perform_declare_of_lookup coord hlookup]
      exact h
    | none =>
      rw [perform_declare_of_lookup_none coord hlookup]
      have hname := Scope.lookup_eq_none.1 hlookup
      exact List.forall_mem_cons.2 ⟨Scope.nodup_append_singleton hinnermost hname, houter⟩

theorem IsDistinct.after (h : s.IsDistinct) (calls : List ScopeCall) :
    (s.after calls).IsDistinct := by
  induction calls generalizing s with
  | nil => exact h
  | cons call calls ih => exact ih (h.perform call)

/-- A declaration is refused if the innermost scope has the name as the other kind. -/
theorem IsDistinct.answer_declare (h : s.IsDistinct) (name : String) (isType : Bool)
    (coord : Coord) :
    (s.perform (.declare name isType coord)).1 =
      if (name, !isType) ∈ s.innermost then .error (.syntactic coord (redeclared name isType))
      else .ok () := by
  have hiff : s.innermost.lookup name = some (!isType) ↔ (name, !isType) ∈ s.innermost :=
    Scope.lookup_eq_some (h _ List.mem_cons_self)
  cases hlookup : s.innermost.lookup name with
  | none =>
    rw [perform_declare_of_lookup_none coord hlookup, if_neg]
    simp [← hiff, hlookup]
  | some before =>
    rw [perform_declare_of_lookup coord hlookup]
    simp only [← hiff, hlookup]
    cases before <;> cases isType <;> rfl

/-- A name is a type if the innermost scope that holds it declares it so. -/
theorem IsDistinct.isType_iff (h : s.IsDistinct) (name : String) :
    s.isType name = true ↔
      ∃ inner scope outer, s.scopes = inner ++ scope :: outer ∧
        (∀ nearer ∈ inner, name ∉ nearer.names) ∧ (name, true) ∈ scope := by
  have hfound : s.isType name = true ↔ s.scopes.findSome? (·.lookup name) = some true := by
    simp [ScopeStack.isType, Option.getD_eq_iff]
  rw [hfound, List.findSome?_eq_some_iff]
  refine exists_congr fun inner ↦ exists_congr fun scope ↦ exists_congr fun outer ↦ ?_
  refine and_congr_right fun hscopes ↦ ?_
  have hscope : scope.names.Nodup := h scope (by simp [hscopes])
  rw [and_comm, Scope.lookup_eq_some hscope]
  simp only [Scope.lookup_eq_none]

/-! ## Calls between a push and its pop -/

theorem outer_perform_declare (s : ScopeStack) (name : String) (isType : Bool) (coord : Coord) :
    (s.perform (.declare name isType coord)).2.outer = s.outer := by
  cases h : s.innermost.lookup name with
  | none => rw [perform_declare_of_lookup_none coord h]
  | some before => rw [perform_declare_of_lookup coord h]

theorem pop_of_outer_eq {t : ScopeStack} (h : t.outer = s.scopes) : t.pop = s := by
  simp [pop, h, scopes]

/-- Balanced calls change at most the innermost scope. -/
theorem outer_after {calls : List ScopeCall} (h : ScopeCall.Balanced calls) (s : ScopeStack) :
    (s.after calls).outer = s.outer := by
  induction h generalizing s with
  | nil => rfl
  | @declare name isType coord calls _ ih =>
    calc (s.after (.declare name isType coord :: calls)).outer
      _ = (s.perform (.declare name isType coord)).2.outer := ih _
      _ = s.outer := outer_perform_declare s name isType coord
  | @block inner calls _ _ ihInner ih =>
    have hpop : (s.push.after inner).pop = s := pop_of_outer_eq (ihInner s.push)
    calc (s.after (.push :: inner ++ .pop :: calls)).outer
      _ = ((s.push.after inner).pop.after calls).outer := by
        rw [List.cons_append]
        exact congrArg outer (after_append s.push inner (.pop :: calls))
      _ = s.outer := by rw [hpop, ih]

theorem after_block {calls : List ScopeCall} (h : ScopeCall.Balanced calls) (s : ScopeStack) :
    s.after (.push :: calls ++ [.pop]) = s := by
  calc s.after (.push :: calls ++ [.pop])
    _ = (s.push.after calls).pop := by
      rw [List.cons_append]
      exact after_append s.push calls [.pop]
    _ = s := pop_of_outer_eq (outer_after h s.push)

/-! ## Nesting -/

/-- After any calls on a new stack, failing ones included: the stack is the row that the same calls
on a row lead to, with the same answers to further calls and to questions for types; a scope is
open, so the complaint that there is none is never made; no scope holds a name twice; a declaration
fails if and only if the innermost scope holds the name as the other kind, and what fails changes
nothing; to open a scope, make balanced calls and leave the scope gives back the stack and its
types; and a name is a type if and only if the innermost of the open scopes that hold it declares it
as one. -/
theorem nesting_after (calls : List ScopeCall) :
    let s := after {} calls
    ScopeRow.after [[]] calls = s.row ∧
    (∀ call, s.row.perform call = ((s.perform call).1, (s.perform call).2.row)) ∧
    (∀ name, s.row.isType name = s.isType name) ∧
    s.row ≠ [] ∧
    (∀ call coord, (s.row.perform call).1 ≠ .error (ScopeRow.noScope coord)) ∧
    (∀ scope ∈ s.scopes, scope.names.Nodup) ∧
    (∀ name isType coord, (s.perform (.declare name isType coord)).1 =
      if (name, !isType) ∈ s.innermost then .error (.syntactic coord (redeclared name isType))
      else .ok ()) ∧
    (∀ call e, (s.perform call).1 = .error e → (s.row.perform call).2 = s.row) ∧
    (∀ w, ScopeCall.Balanced w → s.after (.push :: w ++ [.pop]) = s ∧
      ∀ name, (s.after (.push :: w ++ [.pop])).isType name = s.isType name) ∧
    ∀ name, s.isType name = true ↔
      ∃ inner scope outer, s.scopes = inner ++ scope :: outer ∧
        (∀ nearer ∈ inner, name ∉ nearer.names) ∧ (name, true) ∈ scope := by
  intro s
  have h : s.IsDistinct := isDistinct_empty.after calls
  refine ⟨after_row {} calls, perform_row s, isType_row s, ?_, ?_, h, h.answer_declare, ?_, ?_,
    h.isType_iff⟩
  · simp [row_eq]
  · intro call coord
    rw [perform_row]
    exact perform_ne_noScope s call coord
  · intro call e he
    rw [perform_row, perform_of_error he]
  · intro w hw
    rw [after_block hw]
    exact ⟨rfl, fun _ ↦ rfl⟩

/-- Calls that leave no scope, as there is only one, and then shadow a name in a second scope, where
it cannot be declared as the other kind once more. -/
def shadowing : List ScopeCall :=
  let coord := ⟨"t.c", none, none⟩
  [.declare "T" true coord, .declare "x" false coord, .pop, .push, .declare "x" true coord,
    .declare "x" false coord]

/-- Calls that hide both names, one of them in a scope of its own, with a refused declaration. -/
def covering : List ScopeCall :=
  let coord := ⟨"t.c", none, none⟩
  [.declare "T" false coord, .push, .declare "x" false coord, .pop, .declare "T" true coord]

theorem balanced_covering : ScopeCall.Balanced covering :=
  .declare _ _ _ (.block (.declare _ _ _ .nil) (.declare _ _ _ .nil))

theorem nesting_after_shadowing :
    let s := after {} shadowing
    let refused := ScopeCall.declare "x" false ⟨"t.c", some 1, some 1⟩
    let e := ParseError.syntactic ⟨"t.c", some 1, some 1⟩
      "Non-typedef \"x\" previously declared as typedef in this scope"
    ((s.perform refused).1 = .error e ∧ (s.row.perform refused).2 = s.row) ∧
    (ScopeCall.Balanced covering ∧ (s.push.after covering).isType "T" = false ∧
      s.after (.push :: covering ++ [.pop]) = s ∧
      (s.after (.push :: covering ++ [.pop])).isType "T" = s.isType "T") ∧
    (s.isType "T" = true ∧ s.scopes = [("x", true)] :: [("T", true), ("x", false)] :: [] ∧
      "T" ∉ Scope.names [("x", true)]) := by
  intro s refused e
  obtain ⟨-, -, -, -, -, -, -, hfailed, hblock, htype⟩ := nesting_after shadowing
  have hrefused : (s.perform refused).1 = .error e := by decide +kernel
  obtain ⟨hafter, hsame⟩ := hblock covering balanced_covering
  have hscopes : s.scopes = [("x", true)] :: [("T", true), ("x", false)] :: [] := by decide +kernel
  refine ⟨⟨hrefused, hfailed refused e hrefused⟩, ⟨balanced_covering, ?_, hafter, hsame "T"⟩,
    (htype "T").2 ⟨[[("x", true)]], [("T", true), ("x", false)], [], hscopes, ?_, ?_⟩, hscopes, ?_⟩
  · decide +kernel
  · decide +kernel
  · decide +kernel
  · decide +kernel

end ScopeStack

end ParserGenerator
