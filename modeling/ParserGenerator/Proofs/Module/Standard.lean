import Mathlib.Data.List.Basic
import ParserGenerator.Compile
import ParserGenerator.Proofs.Text.Cuts

/-!
# Compiling with the standard template

The standard template is well-formed and asks only for what a module has. With it a grammar file
compiles unless something is wrong with the file itself: `fileProblem?` says what, without a look at
the template.
-/

namespace ParserGenerator

variable {o : Options}

namespace Module

theorem check_standard :
    (Template.parse Template.standard).bind (Template.check placeholders) = .ok () := by
  rw [Template.parse, Template.standard, Template.standardLines, Text.toList_joinWith_cons]
  simp only [List.flatMap_cons, List.flatMap_nil]
  -- The literals are turned into characters here, since evaluating `String.toList` is slow.
  repeat rewrite [String.toList_ofList]
  decide +kernel

theorem exists_generate_eq (g : Grammar) (h : o.template = none) :
    ∃ text, generate g o = g.problem?.elim (.ok text) .error := by
  have hcheck := check_standard
  rw [generate, Options.pieces, h, Option.getD_none]
  cases hpieces : Template.parse Template.standard with
  | error e =>
    rw [hpieces] at hcheck
    cases hcheck
  | ok pieces =>
    rw [hpieces] at hcheck
    refine ⟨(Template.render (value? g o) pieces).text, ?_⟩
    dsimp only [Except.bind] at hcheck ⊢
    rw [hcheck]
    cases g.problem? <;> rfl

/-- With the standard template, generation fails only for a problem of the grammar. -/
theorem generate_eq_error_iff {g : Grammar} {e : GenerateError} (h : o.template = none) :
    generate g o = .error e ↔ g.problem? = some e := by
  obtain ⟨text, htext⟩ := exists_generate_eq g h
  rw [htext]
  cases g.problem? <;> simp

end Module

/-- What is wrong with a grammar file, whatever the template is. -/
def fileProblem? (source : String) (o : Options) : Option CompileError :=
  match (Grammar.parse source).result with
  | .error e => some (.syntactic e)
  | .ok parsed =>
    if o.strict && !parsed.faults.isEmpty then some (.faults parsed.faults)
    else (parsed.grammar.request o.families).problem?.map .generate

theorem exists_compile_eq (source : String) (h : o.template = none) :
    ∃ text, compile source o = (fileProblem? source o).elim (.ok text) .error := by
  rw [compile, fileProblem?]
  cases (Grammar.parse source).result with
  | error e => exact ⟨"", rfl⟩
  | ok parsed =>
    dsimp only
    split
    · exact ⟨"", rfl⟩
    · obtain ⟨text, htext⟩ := Module.exists_generate_eq (parsed.grammar.request o.families) h
      refine ⟨text, ?_⟩
      rw [htext]
      cases (parsed.grammar.request o.families).problem? <;> rfl

/-- A grammar file that nothing is wrong with compiles with the standard template. -/
theorem exists_compile {source : String} (h : o.template = none)
    (hproblem : fileProblem? source o = none) : ∃ text, compile source o = .ok text := by
  obtain ⟨text, htext⟩ := exists_compile_eq source h
  exact ⟨text, by rw [htext, hproblem]; rfl⟩

theorem compile_eq_error {source : String} {e : CompileError} (h : o.template = none)
    (hproblem : fileProblem? source o = some e) : compile source o = .error e := by
  obtain ⟨text, htext⟩ := exists_compile_eq source h
  rw [htext, hproblem]
  rfl

end ParserGenerator
