import ParserGenerator.Proofs.Derivation.Completeness

/-!
# The meaning of a file

The reader builds a grammar clause by clause. What it has at the end is the grammar that the file
denotes: every field of it is collected from the nodes of the derivation in the order of the text.
-/

namespace ParserGenerator

namespace NameSet

open ParserGenerator.Derivation

theorem insertAll_append (s : NameSet) (a b : List String) :
    s.insertAll (a ++ b) = (s.insertAll a).insertAll b := List.foldl_append

theorem eq_of_names {a b : NameSet} (h : a.names = b.names) : a = b := by
  cases a
  cases b
  congr

/-- A name after others either has occurred before or is a first occurrence. -/
theorem insert_firstOccurrences (names : List String) (name : String) :
    (firstOccurrences names).insert name = firstOccurrences (names ++ [name]) := by
  have hmem : name ∈ firstOccurrences names ↔ name ∈ names := List.mem_eraseDups
  apply eq_of_names
  rw [names_insert]
  by_cases h : name ∈ names
  · rw [if_pos (hmem.2 h)]
    simp [firstOccurrences, List.eraseDups_append, List.removeAll, h]
  · rw [if_neg (mt hmem.1 h)]
    simp [firstOccurrences, List.eraseDups_append, List.removeAll, h, List.eraseDups_cons]

theorem insertAll_firstOccurrences (seen names : List String) :
    (firstOccurrences seen).insertAll names = firstOccurrences (seen ++ names) := by
  induction names generalizing seen with
  | nil => rw [List.append_nil]; rfl
  | cons name names ih =>
    calc (firstOccurrences seen).insertAll (name :: names)
        = ((firstOccurrences seen).insert name).insertAll names := rfl
      _ = (firstOccurrences (seen ++ [name])).insertAll names := by rw [insert_firstOccurrences]
      _ = firstOccurrences (seen ++ name :: names) := by
        rw [ih, List.append_assoc, List.singleton_append]

/-- Inserting names one after another keeps the first occurrence of each. -/
theorem insertAll_empty (names : List String) :
    empty.insertAll names = firstOccurrences names := insertAll_firstOccurrences [] names

end NameSet

namespace FamilySets

/-- The bases among requests that are of one kind. -/
def basesIn (kind : FamilyKind) (requests : List (FamilyKind × String)) : List String :=
  (requests.filter (·.1 = kind)).map (·.2)

theorem get_insert (sets : FamilySets) (kind other : FamilyKind) (base : String) :
    (sets.insert kind base).get other =
      if kind = other then (sets.get other).insert base else sets.get other := by
  cases kind <;> cases other <;> rfl

theorem get_foldl_insert (sets : FamilySets) (requests : List (FamilyKind × String))
    (kind : FamilyKind) :
    (requests.foldl (fun sets r ↦ sets.insert r.1 r.2) sets).get kind =
      (sets.get kind).insertAll (basesIn kind requests) := by
  induction requests generalizing sets with
  | nil => rfl
  | cons r requests ih =>
    rw [List.foldl_cons, ih, get_insert]
    unfold basesIn
    by_cases h : r.1 = kind
    · simp [h, NameSet.insertAll]
    · simp [h]

theorem eq_of_get {a b : FamilySets} (h : ∀ kind, a.get kind = b.get kind) : a = b := by
  obtain ⟨aOptional, aList, aString⟩ := a
  obtain ⟨bOptional, bList, bString⟩ := b
  have ho : aOptional = bOptional := h .optional
  have hl : aList = bList := h .list
  have hs : aString = bString := h .string
  rw [ho, hl, hs]

end FamilySets

namespace Grammar

open ParserGenerator.Derivation State

theorem foldl_addDirective (g : Grammar) (dirs : List Directive) :
    dirs.foldl addDirective g =
      { g with
        start := (dirs.filterMap Directive.startName?).getLast?.getD g.start
        precedence := g.precedence ++ dirs.filterMap Directive.group?
        tokens := g.tokens.insertAll (dirs.flatMap Directive.tokenNames)
        prologue := g.prologue ++ dirs.filterMap Directive.literal? } := by
  induction dirs generalizing g with
  | nil => simp [NameSet.insertAll]
  | cons dir dirs ih =>
    rw [List.foldl_cons, ih]
    cases dir with
    | start name =>
      simp [addDirective, Directive.startName?, Directive.group?, Directive.literal?,
        Directive.tokenNames, List.filterMap_cons, List.getLast?_cons]
    | declaration d tag first more semicolon =>
      cases d <;> simp [addDirective, declareNames, Directive.startName?, Directive.group?,
        Directive.literal?, Directive.tokenNames, List.filterMap_cons, NameSet.insertAll_append]
    | _ =>
      simp [addDirective, Directive.startName?, Directive.group?, Directive.literal?,
        Directive.tokenNames, List.filterMap_cons]

theorem foldl_addClause (g : Grammar) (cs : List Clause) :
    cs.foldl addClause g =
      { g.request (cs.flatMap Clause.bases) with rules := g.rules ++ cs.flatMap Clause.rules } := by
  induction cs generalizing g with
  | nil => simp [request]
  | cons c cs ih =>
    rw [List.foldl_cons, ih]
    simp [addClause, request]

theorem finish_bare (control : Control) (g : Grammar) (firstRule : Option String) :
    (bare control g firstRule).finish.grammar =
      { g with start := if g.start = "" then firstRule.getD "" else g.start } := by
  obtain ⟨start, precedence, tokens, families, rules, prologue, epilogue⟩ := g
  by_cases h : start = ""
  · cases firstRule <;> simp [finish, bare, h]
  · simp [finish, bare, h]

/-- The names of a file are not empty. -/
def NamesNonempty (ts : List Token) : Prop := ∀ name, .identifier name ∈ ts → name ≠ ""

theorem mem_tokens_of_startName {f : File} {name : String}
    (h : name ∈ f.directives.filterMap Directive.startName?) : .identifier name ∈ f.tokens := by
  obtain ⟨dir, hdir, hname⟩ := List.mem_filterMap.1 h
  have hstart : dir = .start name := by
    cases dir <;> simp_all [Directive.startName?]
  cases hheader : f.header with
  | none => simp [File.directives, hheader] at hdir
  | some header =>
    have hmem : .identifier name ∈ header.directives.flatMap Directive.tokens := by
      apply List.mem_flatMap.2
      refine ⟨dir, by simpa [File.directives, hheader] using hdir, ?_⟩
      simp [hstart, Directive.tokens]
    simp [File.tokens, hheader, Header.tokens, hmem]

theorem families_request (f : File) :
    (Grammar.request {} f.bases).families = f.grammar.families := by
  apply FamilySets.eq_of_get
  intro kind
  rw [request, FamilySets.get_foldl_insert]
  cases kind <;> exact NameSet.insertAll_empty _

theorem ofFile_eq (f : File) :
    ofFile f =
      { f.grammar with
        start := (f.directives.filterMap Directive.startName?).getLast?.getD "" } := by
  have hfamilies := families_request f
  rw [ofFile, foldl_addClause, foldl_addDirective]
  simp only [request, File.grammar, File.bases] at hfamilies ⊢
  rw [hfamilies, NameSet.insertAll_empty]
  rfl

/-- The reader ends with the grammar that the file denotes. -/
theorem finish_ofFile {f : File} (hnames : NamesNonempty f.tokens) :
    (bare .finished (ofFile f) (f.clauses.head?.map Clause.lhs)).finish.grammar = f.grammar := by
  have hstart : (let start := (f.directives.filterMap Directive.startName?).getLast?.getD ""
      if start = "" then (f.clauses.head?.map Clause.lhs).getD "" else start) = f.start := by
    unfold File.start
    cases hlast : (f.directives.filterMap Directive.startName?).getLast? with
    | none => cases f.clauses.head? <;> simp
    | some name =>
      have hne : name ≠ "" :=
        hnames name (mem_tokens_of_startName (List.mem_of_getLast? hlast))
      simp [hne]
  rw [finish_bare, ofFile_eq]
  exact congrArg (fun start ↦ { f.grammar with start }) hstart

end Grammar

end ParserGenerator
