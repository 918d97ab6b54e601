import ParserGenerator.Proofs.Derivation.Meaning
import ParserGenerator.Proofs.Derivation.Schedule
import ParserGenerator.Proofs.Lexer.Tiling

/-!
# The language of grammar files

The tokens that the reader is given are those of one reading of the source, in which a divider takes
the rest of the file once the rule section has begun. A source can be read exactly if that reading
has no failure and its tokens have a derivation, and the grammar is then the one that the derivation
denotes.
-/

namespace ParserGenerator

namespace Lexer

/-- The reading of a source in which the last divider takes the rest of the file. -/
def delivered (source : String) : List Pull := read ruleSchedule none source

def Item.token? : Item → Option Token
  | .lexeme lx => some lx.token
  | .failure _ => none

def Item.failure? : Item → Option Failure
  | .lexeme _ => none
  | .failure e => some e

/-- The tokens of a reading. -/
def tokensOf (reading : List Pull) : List Token := (itemsOf reading).filterMap Item.token?

/-- The failures of a reading. -/
def failuresOf (reading : List Pull) : List Failure := (itemsOf reading).filterMap Item.failure?

section Cons

variable {p : Pull} {reading : List Pull}

theorem tokensOf_cons_lexeme {lx : Lexeme} (h : p.item? = some (.lexeme lx)) :
    tokensOf (p :: reading) = lx.token :: tokensOf reading := by
  simp [tokensOf, itemsOf, h, Item.token?]

theorem failuresOf_cons_lexeme {lx : Lexeme} (h : p.item? = some (.lexeme lx)) :
    failuresOf (p :: reading) = failuresOf reading := by
  simp [failuresOf, itemsOf, h, Item.failure?, List.filterMap_cons]

theorem tokensOf_singleton_none (h : p.item? = none) : tokensOf [p] = [] := by
  simp [tokensOf, itemsOf, h]

theorem failuresOf_singleton_none (h : p.item? = none) : failuresOf [p] = [] := by
  simp [failuresOf, itemsOf, h]

theorem failuresOf_cons_failure {e : Failure} (h : p.item? = some (.failure e)) :
    failuresOf (p :: reading) ≠ [] := by
  simp [failuresOf, itemsOf, h, Item.failure?]

end Cons

theorem shaped_of_mem_tokensOf {schedule : List Item → Bool} {source : String} {t : Token}
    (h : t ∈ tokensOf (read schedule none source)) : Shaped t := by
  obtain ⟨segs, htiles⟩ := exists_tiles_read schedule source
  obtain ⟨item, hitem, htoken⟩ := List.mem_filterMap.1 h
  rw [htiles.items] at hitem
  obtain ⟨⟨pos, seg⟩, hentry, hseg⟩ := List.mem_filterMap.1 hitem
  have hmem : seg ∈ segs := Segment.mem_of_mem_placed hentry
  obtain ⟨before, later, rfl⟩ := List.append_of_mem hmem
  have hfits := htiles.chain.fits
  cases seg with
  | token u =>
    obtain rfl := Option.some.inj hseg
    obtain rfl := Option.some.inj htoken
    exact hfits.1
  | failure kind extent =>
    obtain rfl := Option.some.inj hseg
    cases htoken
  | _ => cases hseg

end Lexer

namespace Grammar

open ParserGenerator.Derivation Lexer State

/-! ## Reading a source -/

theorem dropLines_eq_finished {c : Control} : c.dropLines = .finished ↔ c = .finished := by
  cases c <;> simp [Control.dropLines]

theorem finish_core (s : State) : s.core.finish.grammar = s.finish.grammar := by
  unfold finish core
  dsimp only
  split
  · cases s.firstRule <;> rfl
  · rfl

section ReadFrom

variable {cur : Cursor} {s : State} (last : Text.Position) (faults : List Fault)

/-- The state that takes the next lexeme: what the lexer has reported is added to its events. -/
def afterPull (s : State) (p : Pull) : State := { s with events := s.events ++ p.events }

theorem result_readFrom_of_none (h : (cur.pull s.control.closing).item? = none) :
    (readFrom cur s last faults).result =
      if s.control = .finished then
        .ok ⟨s.core.finish.grammar, faults ++ (cur.pull s.control.closing).faults⟩
      else .error (.endOfInput s.control.expects last) := by
  have hcore (p : Pull) : (afterPull s p).finish.grammar = s.core.finish.grammar :=
    (finish_core (afterPull s p)).symm
  rw [readFrom]
  split
  · rw [← hcore (cur.pull s.control.closing)]
    dsimp only
    split <;> rfl
  · simp_all
  · simp_all

theorem result_readFrom_of_failure {e : Failure}
    (h : (cur.pull s.control.closing).item? = some (.failure e)) :
    (readFrom cur s last faults).result = .error (.lexical e) := by
  rw [readFrom]
  split <;> simp_all

theorem result_readFrom_of_lexeme {lx : Lexeme}
    (h : (cur.pull s.control.closing).item? = some (.lexeme lx)) :
    (readFrom cur s last faults).result =
      match (afterPull s (cur.pull s.control.closing)).step lx with
      | none => .error (.unexpected lx s.control.expects)
      | some next =>
        (readFrom (cur.pull s.control.closing).cursor next lx.pos
          (faults ++ (cur.pull s.control.closing).faults)).result := by
  rw [readFrom]
  split
  · simp_all
  · simp_all
  · next lx' hitem =>
    obtain rfl : lx' = lx := by simpa [hitem] using h
    unfold afterPull
    dsimp only
    split <;> simp_all

end ReadFrom

/-- The outcome of reading on from a cursor, in terms of the tokens to come. -/
theorem readFrom_eq_ok_iff {n : Nat} {seen : List Item} {cur : Cursor} {s : State}
    (hn : cur.rest.length < n) (hs : InStep s seen) (last : Text.Position) (faults : List Fault)
    (parsed : Parsed) :
    (readFrom cur s last faults).result = .ok parsed ↔
      failuresOf (pulls ruleSchedule n seen cur) = [] ∧
      ∃ final, s.core.run (tokensOf (pulls ruleSchedule n seen cur)) = some final ∧
        final.control = .finished ∧
        parsed = ⟨final.finish.grammar, faults ++ faultsOf (pulls ruleSchedule n seen cur)⟩ := by
  induction n generalizing seen cur s last faults with
  | zero => omega
  | succ n ih =>
    have hclosing := hs.closing
    rcases hitem : (cur.pull (ruleSchedule seen)).item? with _ | lx | e
    · rw [result_readFrom_of_none last faults (hclosing ▸ hitem), pulls_of_item?_eq_none hitem,
        failuresOf_singleton_none hitem, tokensOf_singleton_none hitem, run_nil]
      have hfinished : s.core.control = .finished ↔ s.control = .finished := dropLines_eq_finished
      have hfaults : faultsOf [cur.pull (ruleSchedule seen)] =
          (cur.pull (ruleSchedule seen)).faults := List.flatMap_singleton ..
      rw [hfaults, hclosing]
      split
      · next h =>
        constructor
        · intro hok
          exact ⟨rfl, s.core, rfl, hfinished.2 h, (Except.ok.inj hok).symm⟩
        · rintro ⟨-, final, hfinal, -, rfl⟩
          obtain rfl := Option.some.inj hfinal
          rfl
      · next h =>
        constructor
        · intro hok
          cases hok
        · rintro ⟨-, final, hfinal, hcontrol, -⟩
          obtain rfl := Option.some.inj hfinal
          exact absurd (hfinished.1 hcontrol) h
    · rw [result_readFrom_of_lexeme last faults (hclosing ▸ hitem), pulls_of_item?_eq_some hitem,
        failuresOf_cons_lexeme hitem, tokensOf_cons_lexeme hitem]
      have hcore : (afterPull s (cur.pull s.control.closing)).core = s.core := rfl
      rw [run_cons, ← hcore, ← core_step]
      have hlen := length_pull hitem
      cases hstep : (afterPull s (cur.pull s.control.closing)).step lx with
      | none => simp
      | some next =>
        dsimp only [Option.map_some, Option.bind_some]
        have hnext : InStep next (seen ++ [.lexeme lx]) :=
          InStep.step (s := afterPull s _) ⟨hs.closing, hs.opening⟩ hstep
        rw [hclosing, ih (by omega) hnext]
        simp [faultsOf]
    · rw [result_readFrom_of_failure last faults (hclosing ▸ hitem), pulls_of_item?_eq_some hitem]
      simp [failuresOf_cons_failure hitem]

/-- The lexer delivers no empty name. -/
theorem namesNonempty_delivered (source : String) :
    NamesNonempty (tokensOf (delivered source)) := by
  intro name hmem
  obtain ⟨c, rest, hname, -⟩ := shaped_of_mem_tokensOf hmem
  rintro rfl
  cases hname

/-- Tokens lead to the last state exactly if they have a derivation, whose grammar is then built. -/
theorem run_finished_iff {ts : List Token} (hnames : NamesNonempty ts) (g : Grammar) :
    (∃ final, (bare .opening {} none).run ts = some final ∧ final.control = .finished ∧
      final.finish.grammar = g) ↔
    ∃ file : File, file.tokens = ts ∧ file.grammar = g := by
  constructor
  · rintro ⟨final, hrun, hcontrol, rfl⟩
    have haccepts : AcceptsFrom .opening ts := ⟨{}, none, final, hrun, hcontrol⟩
    obtain ⟨file, rfl⟩ := haccepts.opening
    rw [run_file] at hrun
    obtain rfl := Option.some.inj hrun
    exact ⟨file, rfl, (finish_ofFile hnames).symm⟩
  · rintro ⟨file, rfl, rfl⟩
    exact ⟨_, run_file file, rfl, finish_ofFile hnames⟩

theorem parse_eq_ok_iff (source : String) (parsed : Parsed) :
    (parse source).result = .ok parsed ↔
      failuresOf (delivered source) = [] ∧
      ∃ file : File, file.tokens = tokensOf (delivered source) ∧
        parsed = ⟨file.grammar, faultsOf (delivered source)⟩ := by
  have hlen : (Cursor.ofString source).rest.length < source.length + 1 := by
    rw [← String.length_toList]
    exact Nat.lt_succ_self _
  have hread := @readFrom_eq_ok_iff _ [] _ {} hlen ⟨rfl, by simp⟩ .start [] parsed
  apply hread.trans
  apply and_congr_right
  intro _
  have hrun := run_finished_iff (namesNonempty_delivered source)
  constructor
  · rintro ⟨final, hfinal, hcontrol, rfl⟩
    obtain ⟨file, htokens, hgrammar⟩ := (hrun _).1 ⟨final, hfinal, hcontrol, rfl⟩
    exact ⟨file, htokens, by rw [hgrammar]; rfl⟩
  · rintro ⟨file, htokens, rfl⟩
    obtain ⟨final, hfinal, hcontrol, hgrammar⟩ := (hrun _).2 ⟨file, htokens, rfl⟩
    exact ⟨final, hfinal, hcontrol, by rw [hgrammar]; rfl⟩

/-- A source without lexical failures can be read exactly if its tokens have a derivation, and what
is read is then the grammar that the derivation denotes, with the illegal characters left out. -/
theorem parse_iff_derivation {source : String} (h : failuresOf (delivered source) = []) :
    ((∃ parsed, (parse source).result = .ok parsed) ↔
      ∃ file : File, file.tokens = tokensOf (delivered source)) ∧
    ∀ file : File, file.tokens = tokensOf (delivered source) →
      (parse source).result = .ok ⟨file.grammar, faultsOf (delivered source)⟩ := by
  have hdenotes (file : File) (hfile : file.tokens = tokensOf (delivered source)) :
      (parse source).result = .ok ⟨file.grammar, faultsOf (delivered source)⟩ :=
    (parse_eq_ok_iff source _).2 ⟨h, file, hfile, rfl⟩
  refine ⟨⟨?_, ?_⟩, hdenotes⟩
  · rintro ⟨parsed, hparsed⟩
    obtain ⟨-, file, hfile, -⟩ := (parse_eq_ok_iff source parsed).1 hparsed
    exact ⟨file, hfile⟩
  · rintro ⟨file, hfile⟩
    exact ⟨_, hdenotes file hfile⟩

/-- A file with a tagged declaration, nested shorthands, an action and a stray character. -/
theorem parse_iff_derivation_nested :
    let source := "%token <t> A 1, '+' ;\n%%\nx : [<A>] '+' # \x7b go \x7d | %prec A x ;\n%% end"
    let file : File :=
      { header := some ⟨[.declaration .tokens (some "t") ⟨.identifier "A", some "1"⟩
          [⟨true, .quoted "'+'", none⟩] true], none⟩
        clauses := [⟨"x", [.reference (.wrapped .optional (.wrapped .list (.plain "A"))),
          .quoted "'+'", .action "\x7b go \x7d"],
          [[.prec, .reference (.plain "A"), .reference (.plain "x")]]⟩]
        tail := some " end"
        starts_with_rule := nofun }
    failuresOf (delivered source) = [] ∧ file.tokens = tokensOf (delivered source) ∧
      (parse source).result = .ok ⟨file.grammar, faultsOf (delivered source)⟩ := by
  intro source file
  have hfailures : failuresOf (delivered source) = [] := by decide +kernel
  have htokens : file.tokens = tokensOf (delivered source) := by decide +kernel
  exact ⟨hfailures, htokens, (parse_iff_derivation hfailures).2 file htokens⟩

end Grammar

end ParserGenerator
