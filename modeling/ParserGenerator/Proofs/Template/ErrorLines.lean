import Mathlib.Data.List.Basic
import ParserGenerator.Proofs.Template.Writing

/-!
# Lines of template errors

An error is about the first place in a template at which something is wrong, and it tells the line
of that place. Line feeds are counted in the texts between the placeholders and not in the names of the
placeholders, so the line is right just as long as no name before the place has a line feed.
-/

namespace ParserGenerator.Template

open Text

def TemplateError.line : TemplateError → Nat
  | .unknownPlaceholder _ line | .unterminated line | .stray line => line

/-- What is behind a dollar sign that starts nothing: a brace that is not closed, or neither another
dollar sign nor a brace nor an identifier. -/
def TemplateError.Concerns (tail : List Char) : TemplateError → Prop
  | .unknownPlaceholder _ _ => False
  | .unterminated _ => ∃ name, tail = '{' :: name ∧ '}' ∉ name
  | .stray _ =>
    ∀ c ∈ tail.head?, c ≠ '$' ∧ c ≠ '{' ∧ (isNameChar c = true → c.isDigit = true)

theorem concerns_of_construct {line : Nat} {tail : List Char} {e : TemplateError}
    (h : construct line tail = .error e) : e.Concerns tail ∧ e.line = line := by
  revert h
  fun_cases construct line tail <;> intro h <;>
    simp only [Except.error.injEq, reduceCtorEq] at h <;> subst h
  case case3 name hcut => exact ⟨⟨name, rfl, not_mem_of_cutAt_eq_none hcut⟩, rfl⟩
  case case4 =>
    refine ⟨fun c hc ↦ ?_, rfl⟩
    cases hc
  case case6 c rest hdollar hbrace hc =>
    refine ⟨?_, rfl⟩
    rintro _ ⟨⟩
    simp_all

/-- The line feeds in the names of placeholders. -/
def hiddenFeeds (parts : List Part) : Nat := ((names parts).flatMap String.toList).count '\n'

theorem hiddenFeeds_eq_zero_iff {parts : List Part} :
    hiddenFeeds parts = 0 ↔ ∀ name ∈ names parts, '\n' ∉ name.toList := by
  simp [hiddenFeeds, List.count_eq_zero]

theorem hiddenFeeds_cons {part : Part} {name : String} (h : part.name? = some name)
    (parts : List Part) :
    hiddenFeeds (part :: parts) = name.toList.count '\n' + hiddenFeeds parts := by
  rw [hiddenFeeds, names_cons h, List.flatMap_cons, List.count_append]
  rfl

theorem count_doubled (cs : List Char) : (doubled cs).count '\n' = cs.count '\n' := by
  induction cs with
  | nil => rfl
  | cons c cs ih =>
    by_cases hc : c = '$'
    · subst hc
      simpa using ih
    · simp [doubled_cons hc, List.count_cons, ih]

/-- A line feed of a template is one of a text or one of a name. -/
theorem count_written (parts : List Part) :
    (written parts).count '\n' = feeds parts + hiddenFeeds parts := by
  induction parts with
  | nil => rfl
  | cons part parts ih =>
    rw [written_cons, List.count_append, ih]
    cases part with
    | text t =>
      rw [Part.written, count_doubled, feeds, Nat.add_assoc]
      rfl
    | braced name | bare name =>
      rw [feeds_cons rfl, hiddenFeeds_cons rfl]
      simp [Part.written, Nat.add_left_comm]

/-- The reported line of a place behind the given parts. -/
structure Reported (before : List Part) (line : Nat) : Prop where
  line_add : line + hiddenFeeds before = 1 + (written before).count '\n'
  line_eq_iff : line = 1 + (written before).count '\n' ↔ ∀ name ∈ names before, '\n' ∉ name.toList

theorem reported (before : List Part) : Reported before (1 + feeds before) := by
  have hcount := count_written before
  refine ⟨by omega, ?_⟩
  rw [← hiddenFeeds_eq_zero_iff]
  omega

/-! ## The first wrong place -/

theorem exists_of_check {known : List String} {parts : List Part} {line : Nat} {e : TemplateError}
    (h : check known (piecesAt line parts) = .error e) :
    ∃ before part after name, parts = before ++ part :: after ∧ part.name? = some name ∧
      (∀ n ∈ names before, n ∈ known) ∧ name ∉ known ∧
      e = .unknownPlaceholder name (line + feeds before) := by
  induction parts generalizing line with
  | nil => cases h
  | cons part parts ih =>
    cases hname : part.name? with
    | none =>
      obtain ⟨t, rfl⟩ := exists_text_of_name? hname
      obtain ⟨before, part, after, name, rfl, hpart, hbefore, hunknown, rfl⟩ := ih h
      refine ⟨.text t :: before, part, after, name, rfl, hpart, hbefore, hunknown, ?_⟩
      rw [feeds, Nat.add_assoc]
    | some name =>
      rw [piecesAt_cons hname, check] at h
      split at h
      · next hknown =>
        obtain ⟨before, part', after, name', rfl, hpart, hbefore, hunknown, rfl⟩ := ih h
        refine ⟨part :: before, part', after, name', rfl, hpart, ?_, hunknown, ?_⟩
        · rw [names_cons hname]
          exact List.forall_mem_cons.2 ⟨hknown, hbefore⟩
        · rw [feeds_cons hname]
      · next hunknown =>
        exact ⟨[], part, parts, name, rfl, hname, List.forall_mem_nil _, hunknown,
          (Except.error.inj h).symm⟩

/-- Reading fails at the first dollar sign that starts nothing, and the check fails at the first
placeholder that is not known. The line that is told falls short of the line of that place by the
line feeds in the names of the placeholders before it. -/
theorem line_of_error (text : String) :
    (∀ e, parse text = .error e →
      ∃ before tail, IsWritable before ∧ text.toList = written before ++ '$' :: tail ∧
        e.Concerns tail ∧ Reported before e.line) ∧
    ∀ pieces known e, parse text = .ok pieces → check known pieces = .error e →
      ∃ before part after name, IsWritable (before ++ part :: after) ∧
        text.toList = written before ++ (part.written ++ written after) ∧
        part.name? = some name ∧ (∀ n ∈ names before, n ∈ known) ∧ name ∉ known ∧
        e = .unknownPlaceholder name e.line ∧ Reported before e.line := by
  obtain ⟨parts, hparts, hread⟩ := exists_readAs 1 text.toList
  rw [← parse] at hread
  constructor
  · intro e hparse
    rw [hparse] at hread
    obtain ⟨tail, htext, herror⟩ := hread
    obtain ⟨hconcerns, hline⟩ := concerns_of_construct herror
    exact ⟨parts, tail, hparts, htext, hconcerns, hline ▸ reported parts⟩
  · intro pieces known e hparse hcheck
    rw [hparse] at hread
    obtain ⟨htext, rfl⟩ := hread
    obtain ⟨before, part, after, name, rfl, hname, hbefore, hunknown, rfl⟩ := exists_of_check hcheck
    rw [written_append, written_cons] at htext
    exact ⟨before, part, after, name, hparts, htext, hname, hbefore, hunknown, rfl, reported before⟩

/-- A brace that is not closed behind a name with a line feed, and an unknown name behind it. -/
theorem line_of_error_named :
    (parse "$x\n$\x7ba\nb\x7d\n$\x7bc" = .error (.unterminated 3) ∧
      ∃ before tail, IsWritable before ∧
        "$x\n$\x7ba\nb\x7d\n$\x7bc".toList = written before ++ '$' :: tail ∧
        (∃ name, tail = '{' :: name ∧ '}' ∉ name) ∧ Reported before 3) ∧
    ∃ pieces, parse "$x\n$\x7ba\nb\x7d\n$c" = .ok pieces ∧
      check ["x", "a\nb"] pieces = .error (.unknownPlaceholder "c" 3) ∧
      ∃ before part after name, IsWritable (before ++ part :: after) ∧
        "$x\n$\x7ba\nb\x7d\n$c".toList = written before ++ (part.written ++ written after) ∧
        part.name? = some name ∧ (∀ n ∈ names before, n ∈ ["x", "a\nb"]) ∧
        name ∉ ["x", "a\nb"] ∧ TemplateError.unknownPlaceholder "c" 3 = .unknownPlaceholder name 3 ∧
        Reported before 3 := by
  have hopen : parse "$x\n$\x7ba\nb\x7d\n$\x7bc" = .error (.unterminated 3) := by decide +kernel
  have hparse : parse "$x\n$\x7ba\nb\x7d\n$c" =
      .ok [.placeholder "x" 1, .text "\n", .placeholder "a\nb" 2, .text "\n",
        .placeholder "c" 3] := by decide +kernel
  have hcheck : check ["x", "a\nb"] [.placeholder "x" 1, .text "\n", .placeholder "a\nb" 2,
      .text "\n", .placeholder "c" 3] = .error (.unknownPlaceholder "c" 3) := by decide +kernel
  exact ⟨⟨hopen, (line_of_error _).1 _ hopen⟩, _, hparse, hcheck,
    (line_of_error _).2 _ _ _ hparse hcheck⟩

/-- A line feed in a name stands before the place of the error and is not counted. -/
theorem line_short_of_name :
    let before := "$\x7ba\nb\x7d"
    (∃ e, parse (before ++ "$ ") = .error e ∧ e.line ≠ 1 + before.toList.count '\n') ∧
      ∃ pieces e, parse (before ++ "$c") = .ok pieces ∧ check ["a\nb"] pieces = .error e ∧
        e.line ≠ 1 + before.toList.count '\n' := by
  intro before
  have hcount : before.toList.count '\n' = 1 := by decide +kernel
  have hparse : parse (before ++ "$ ") = .error (.stray 1) := by decide +kernel
  have hpieces : parse (before ++ "$c") = .ok [.placeholder "a\nb" 1, .placeholder "c" 1] := by
    decide +kernel
  rw [hcount]
  exact ⟨⟨_, hparse, by decide⟩, _, _, hpieces, rfl, by decide⟩

end ParserGenerator.Template
