import ParserGenerator.Proofs.Derivation.Language
import ParserGenerator.Proofs.Lexer.Lookahead

/-!
# Scanning a source

Where the tokens of a source stand does not matter for its grammar. A scan reads a source without
keeping account of places, lines and reports, so that the grammar of a given source can be computed
step by step.
-/

namespace ParserGenerator

open Text Lexer

namespace Lexer

/-- The first token of a text, without its place, and the text after it. There is no token if the
text ends first, and no answer after a failure or `n` segments. -/
def firstToken (closing : Bool) : Nat → List Char → Option (Option Token × List Char)
  | 0, _ => none
  | _ + 1, [] => some (none, [])
  | n + 1, c :: rest =>
    match Segment.first closing c rest with
    | (.token t, after) => some (some t, after)
    | (.failure _ _, _) => none
    | (_, after) => firstToken closing n after

/-- A pull finds the first token wherever the text stands. -/
theorem pullFrom_of_firstToken {closing : Bool} {n : Nat} {rest after : List Char}
    {t? : Option Token} (h : firstToken closing n rest = some (t?, after)) (pos : Position) :
    ∃ place, (pullFrom closing rest pos).item? = t?.map (.lexeme ⟨·, place⟩) ∧
      (pullFrom closing rest pos).cursor.rest = after := by
  fun_induction firstToken closing n rest generalizing pos with
  | case1 rest => cases h
  | case2 n =>
    obtain ⟨rfl, rfl⟩ := Prod.mk.inj (Option.some.inj h)
    refine ⟨pos, ?_⟩
    rw [pullFrom]
    exact ⟨rfl, rfl⟩
  | case3 n c rest t after' hfirst =>
    obtain ⟨rfl, rfl⟩ := Prod.mk.inj (Option.some.inj h)
    refine ⟨pos, ?_⟩
    rw [pullFrom_token pos hfirst]
    exact ⟨rfl, rfl⟩
  | case4 n c rest kind extent after' hfirst => cases h
  | case5 n c rest seg after' htoken hfailure hfirst ih =>
    have hitem : seg.item? pos = none := by
      cases seg with
      | token t => exact absurd rfl (htoken t)
      | failure kind extent => exact absurd rfl (hfailure kind extent)
      | _ => rfl
    rw [pullFrom_skip pos hfirst hitem]
    exact ih h (pos.advance seg.text)

end Lexer

namespace Grammar

open State

theorem closing_dropLines (c : Control) : c.dropLines.closing = c.closing := by
  cases c <;> rfl

/-- The grammar of a text that is read from a state on. There is none if the text is refused or has
more than `n` tokens or segments between them. -/
def scan : Nat → State → List Char → Option Grammar
  | 0, _, _ => none
  | n + 1, s, rest =>
    match firstToken s.control.closing (n + 1) rest with
    | none => none
    | some (none, _) => if s.control = .finished then some s.finish.grammar else none
    | some (some t, after) => (s.stepToken t).bind (scan n · after)

/-- What a scan finds is read, wherever the text stands and whatever has been reported. -/
theorem result_readFrom_of_scan {n : Nat} {s : State} {cur : Cursor} {g : Grammar}
    (h : scan n s.core cur.rest = some g) (last : Position) (faults : List Fault) :
    ∃ faults', (readFrom cur s last faults).result = .ok ⟨g, faults'⟩ := by
  induction n generalizing s cur last faults with
  | zero => cases h
  | succ n ih =>
    have hclosing : s.core.control.closing = s.control.closing := closing_dropLines s.control
    rw [scan, hclosing] at h
    cases hfirst : firstToken s.control.closing (n + 1) cur.rest with
    | none => simp [hfirst] at h
    | some found =>
      obtain ⟨t?, after⟩ := found
      obtain ⟨place, hitem, hrest⟩ := pullFrom_of_firstToken hfirst cur.pos
      cases t? with
      | none =>
        obtain ⟨hfinished, hg⟩ : s.core.control = .finished ∧ s.core.finish.grammar = g := by
          simpa [hfirst] using h
        rw [result_readFrom_of_none last faults hitem, if_pos (dropLines_eq_finished.1 hfinished),
          hg]
        exact ⟨_, rfl⟩
      | some t =>
        obtain ⟨next', hstep', hscan⟩ : ∃ next', s.core.stepToken t = some next' ∧
            scan n next' after = some g := by
          simpa [hfirst, Option.bind_eq_some_iff] using h
        -- What the pull reports is not part of the core.
        obtain ⟨next, hstep, rfl⟩ : ∃ next, (afterPull s (cur.pull s.control.closing)).step
            ⟨t, place⟩ = some next ∧ next.core = next' := by
          rw [← Option.map_eq_some_iff, core_step]
          exact hstep'
        rw [result_readFrom_of_lexeme last faults hitem, hstep]
        exact ih (hrest ▸ hscan) _ _

theorem parse_of_scan {n : Nat} {source : String} {g : Grammar}
    (h : scan n {} source.toList = some g) :
    ∃ faults, (parse source).result = .ok ⟨g, faults⟩ :=
  result_readFrom_of_scan h .start []

end Grammar

end ParserGenerator
