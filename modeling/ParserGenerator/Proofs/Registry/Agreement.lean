import ParserGenerator.Proofs.Derivation.Language
import ParserGenerator.Proofs.Derivation.Productions

/-!
# Two readings of one line

The line of a rule is written once and read twice: the generator splits it to check the symbols of
the rule, and the registry splits it to define a production. Both readings give back what was
collected for the alternative, whatever its quoted literals hold.

What a production makes of the items of an alternative is said by a list of phrases: an item that
stands for itself, or a precedence mark together with the item that it takes. A line is accepted
exactly if its items can be cut into phrases, and the production is read off the phrases.
-/

namespace ParserGenerator

open Lexer

namespace Derivation

/-! ## Phrases -/

/-- A part of an alternative as a production reads it. -/
inductive Phrase where
  | item (e : Element) (plain : e ≠ .prec)
  /-- A precedence mark and the item that it takes as its name. -/
  | borrowed (name : Element)

namespace Phrase

def elements : Phrase → List Element
  | .item e _ => [e]
  | .borrowed name => [.prec, name]

/-- The symbol that a phrase adds to the right-hand side. -/
def symbol? : Phrase → Option String
  | .item e _ => e.symbol?
  | .borrowed _ => none

/-- The name that a phrase borrows a precedence from. -/
def prec? : Phrase → Option String
  | .item _ _ => none
  | .borrowed name => name.symbol?

end Phrase

/-- Items that can be cut into phrases have a name for every mark. -/
theorem marksTaken_phrases (phrases : List Phrase) :
    marksTaken (phrases.flatMap Phrase.elements) = true := by
  induction phrases with
  | nil => rfl
  | cons phrase phrases ih =>
    cases phrase with
    | item e plain =>
      cases hrest : phrases.flatMap Phrase.elements with
      | nil => simp [Phrase.elements, hrest, marksTaken, plain]
      | cons next rest =>
        rw [hrest] at ih
        simpa [Phrase.elements, hrest, marksTaken, plain] using ih
    | borrowed name => simpa [Phrase.elements, marksTaken] using ih

theorem rhsOf_phrases (phrases : List Phrase) :
    rhsOf (phrases.flatMap Phrase.elements) = phrases.filterMap Phrase.symbol? := by
  induction phrases with
  | nil => rfl
  | cons phrase phrases ih =>
    cases phrase with
    | item e plain =>
      have hcons (rest : List Element) : rhsOf (e :: rest) = e.symbol?.toList ++ rhsOf rest := by
        cases rest with
        | nil => simp [rhsOf]
        | cons next rest => simp [rhsOf, plain]
      rw [List.flatMap_cons, Phrase.elements, List.singleton_append, hcons, ih,
        List.filterMap_cons, Phrase.symbol?]
      cases e.symbol? <;> rfl
    | borrowed name => simpa [Phrase.elements, rhsOf, Phrase.symbol?, List.filterMap_cons] using ih

/-- The last mark wins. -/
theorem precOf_phrases (phrases : List Phrase) :
    precOf (phrases.flatMap Phrase.elements) = (phrases.filterMap Phrase.prec?).getLast? := by
  induction phrases with
  | nil => rfl
  | cons phrase phrases ih =>
    cases phrase with
    | item e plain =>
      have hcons (rest : List Element) : precOf (e :: rest) = precOf rest := by
        cases rest with
        | nil => rfl
        | cons next rest => simp [precOf, plain]
      rw [List.flatMap_cons, Phrase.elements, List.singleton_append, hcons, ih,
        List.filterMap_cons, Phrase.prec?]
    | borrowed name =>
      have hcons (rest : List Element) :
          precOf (.prec :: name :: rest) = (precOf rest <|> name.symbol?) := by
        simp [precOf]
      rw [List.flatMap_cons, Phrase.elements, List.cons_append, List.singleton_append, hcons, ih,
        List.filterMap_cons, Phrase.prec?]
      cases name.symbol? with
      | none => simp
      | some s =>
        rw [List.getLast?_cons]
        cases (phrases.filterMap Phrase.prec?).getLast? <;> rfl

theorem exists_phrases {es : List Element} (h : marksTaken es = true) :
    ∃ phrases : List Phrase, phrases.flatMap Phrase.elements = es := by
  fun_induction marksTaken es with
  | case1 => exact ⟨[], rfl⟩
  | case2 e => exact ⟨[.item e (by simpa using h)], rfl⟩
  | case3 next rest ih =>
    obtain ⟨phrases, rfl⟩ := ih h
    exact ⟨.borrowed next :: phrases, rfl⟩
  | case4 e next rest he ih =>
    obtain ⟨phrases, hphrases⟩ := ih h
    exact ⟨.item e he :: phrases, by rw [List.flatMap_cons, hphrases]; rfl⟩

/-! ## Lines -/

/-- Leaving out the written marks is leaving out the items that are marks. -/
theorem filter_symbolsOf {es : List Element}
    (hprec : ∀ e ∈ es, e.symbol? = some Symbols.precMark ↔ e = .prec) :
    (symbolsOf es).filter (· ≠ Symbols.precMark) = symbolsOf (es.filter (· ≠ .prec)) := by
  induction es with
  | nil => rfl
  | cons e es ih =>
    have hes := ih fun e' he' ↦ hprec e' (List.mem_cons_of_mem _ he')
    have hmark := hprec e List.mem_cons_self
    by_cases he : e = .prec
    · rw [symbolsOf_cons (hmark.2 he), List.filter_cons_of_neg (by simp), hes,
        List.filter_cons_of_neg (by simp [he])]
    · rw [List.filter_cons_of_pos (by simp [he])]
      cases hsymbol : e.symbol? with
      | none =>
        have hcons (rest : List Element) : symbolsOf (e :: rest) = symbolsOf rest :=
          List.filterMap_cons_none hsymbol
        rw [hcons, hcons, hes]
      | some s =>
        have hne : s ≠ Symbols.precMark := fun heq ↦ he (hmark.1 (heq ▸ hsymbol))
        rw [symbolsOf_cons hsymbol, symbolsOf_cons hsymbol,
          List.filter_cons_of_pos (by simpa using hne), hes]

theorem allShaped_of_tokens {f : File} {source : String}
    (h : f.tokens = tokensOf (delivered source)) : AllShaped f.tokens := by
  rw [h]
  exact fun _ ↦ shaped_of_mem_tokensOf

section Shaped

variable {f : File} {p : Place} (h : AllShaped f.tokens) (hp : p ∈ f.places)

include h hp

theorem Place.split_rhs : Symbols.split p.rule.rhs = symbolsOf p.alt :=
  Rule.split_rhs_of_production rfl (isName_lhs h hp).isHead (Place.isSymbol_symbolsOf h hp)

/-- The generator leaves out the marks of an alternative and nothing else. -/
theorem Place.symbols_rule : p.rule.symbols = symbolsOf (p.alt.filter (· ≠ .prec)) := by
  rw [Rule.symbols, Place.split_rhs h hp]
  apply filter_symbolsOf
  intro e he
  exact Element.symbol?_eq_precMark (allShaped_element h hp he)

/-- The registry accepts a line exactly if its items can be cut into phrases. -/
theorem Place.parse_line_eq_ok_iff (name : String) (production : Production) :
    Production.parse name p.rule.production = .ok production ↔
      ∃ phrases : List Phrase, phrases.flatMap Phrase.elements = items p.alt ∧
        production = ⟨name, p.clause.lhs, phrases.filterMap Phrase.symbol?,
          (phrases.filterMap Phrase.prec?).getLast?⟩ := by
  rw [Place.parse_line h hp]
  constructor
  · intro hok
    split at hok
    · next hmarks =>
      obtain ⟨phrases, hphrases⟩ := exists_phrases hmarks
      refine ⟨phrases, hphrases, ?_⟩
      rw [← Except.ok.inj hok, ← rhsOf_phrases, ← precOf_phrases, hphrases]
      rfl
    · cases hok
  · rintro ⟨phrases, hphrases, rfl⟩
    have hmarks : p.MarksTaken := by
      rw [Place.MarksTaken, ← hphrases]
      exact marksTaken_phrases phrases
    rw [if_pos hmarks, ← rhsOf_phrases, ← precOf_phrases, hphrases]
    rfl

end Shaped

end Derivation

open ParserGenerator.Derivation

/-- In a source that can be read, the line of every rule says the same to the generator and to the
registry. It splits into the symbols of the alternative. The generator takes its left-hand side and
all symbols but the marks; the registry accepts it exactly if the items of the alternative can be
cut into phrases, and then the marks and the items that they take are left out of the right-hand
side, and the last mark names the precedence. -/
theorem line_readings_agree {source : String} {parsed : Grammar.Parsed}
    (h : (Grammar.parse source).result = .ok parsed) :
    (∃ file : File, file.tokens = tokensOf (delivered source)) ∧
    ∀ file : File, file.tokens = tokensOf (delivered source) →
      parsed.grammar.rules = file.places.map Place.rule ∧
      ∀ p ∈ file.places,
        Symbols.split p.rule.rhs = symbolsOf p.alt ∧
        p.rule.lhs = p.clause.lhs ∧
        p.rule.symbols = symbolsOf (p.alt.filter (· ≠ .prec)) ∧
        ∀ name production,
          Production.parse name p.rule.production = .ok production ↔
            ∃ phrases : List Phrase, phrases.flatMap Phrase.elements = items p.alt ∧
              production = ⟨name, p.rule.lhs, phrases.filterMap Phrase.symbol?,
                (phrases.filterMap Phrase.prec?).getLast?⟩ := by
  obtain ⟨hfailures, derived, hderived, -⟩ := (Grammar.parse_eq_ok_iff source parsed).1 h
  refine ⟨⟨derived, hderived⟩, ?_⟩
  intro file hfile
  have hresult := (Grammar.parse_eq_ok_iff source _).2 ⟨hfailures, file, hfile, rfl⟩
  obtain rfl := Except.ok.inj (h.symm.trans hresult)
  refine ⟨file.rules_eq_map, ?_⟩
  intro p hp
  have hshaped := allShaped_of_tokens hfile
  have hlhs := Place.lhs_rule hshaped hp
  refine ⟨Place.split_rhs hshaped hp, hlhs, Place.symbols_rule hshaped hp, ?_⟩
  intro name production
  rw [hlhs]
  exact Place.parse_line_eq_ok_iff hshaped hp name production

/-- Literals that hold blanks, colons, marks and the other quote, a borrowed precedence that is a
quoted mark, and an alternative that ends with a mark. -/
theorem line_readings_agree_quoted :
    let source := "%%\nx : [<a>] ' : %prec' \"it's\" %prec '%prec' \x7b go \x7d | b %prec ;\n%%\n"
    let first : List Element :=
      [.reference (.wrapped .optional (.wrapped .list (.plain "a"))), .quoted "' : %prec'",
        .quoted "\"it's\"", .prec, .quoted "'%prec'", .action "\x7b go \x7d"]
    let second : List Element := [.reference (.plain "b"), .prec]
    let file : File :=
      { header := some ⟨[], none⟩
        clauses := [⟨"x", first, [second]⟩]
        tail := some "\n"
        starts_with_rule := nofun }
    let place (index : Nat) (alt : List Element) : Place := ⟨⟨"x", first, [second]⟩, index, alt⟩
    file.tokens = tokensOf (delivered source) ∧
    (∃ parsed, (Grammar.parse source).result = .ok parsed ∧
      parsed.grammar.rules = [(place 0 first).rule, (place 1 second).rule]) ∧
    Symbols.split (place 0 first).rule.rhs =
      ["a_list_opt", "' : %prec'", "\"it's\"", "%prec", "'%prec'"] ∧
    Production.parse "p" (place 0 first).rule.production =
      .ok ⟨"p", "x", ["a_list_opt", "' : %prec'", "\"it's\""], some "'%prec'"⟩ ∧
    ∀ production, Production.parse "p" (place 1 second).rule.production ≠ .ok production := by
  intro source first second file place
  have hfailures : failuresOf (delivered source) = [] := by decide +kernel
  have hfile : file.tokens = tokensOf (delivered source) := by decide +kernel
  have hparsed := (Grammar.parse_eq_ok_iff source _).2 ⟨hfailures, file, hfile, rfl⟩
  obtain ⟨hrules, hplaces⟩ := (line_readings_agree hparsed).2 file hfile
  obtain ⟨hsplit, -, -, hparse⟩ := hplaces (place 0 first) List.mem_cons_self
  obtain ⟨-, -, -, hrefuse⟩ :=
    hplaces (place 1 second) (List.mem_cons_of_mem _ List.mem_cons_self)
  refine ⟨hfile, ⟨_, hparsed, hrules⟩, hsplit, ?_, ?_⟩
  · apply (hparse "p" _).2
    exact ⟨[.item (first[0]) nofun, .item (first[1]) nofun, .item (first[2]) nofun,
      .borrowed (first[4])], rfl, by decide +kernel⟩
  · intro production hok
    obtain ⟨phrases, hphrases, -⟩ := (hrefuse "p" production).1 hok
    have hmarks := marksTaken_phrases phrases
    rw [hphrases] at hmarks
    exact absurd hmarks (by decide)

end ParserGenerator
