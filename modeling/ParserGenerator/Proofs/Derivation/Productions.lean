import ParserGenerator.Proofs.Derivation.Basic
import ParserGenerator.Proofs.Lexer.Tiling
import ParserGenerator.Proofs.Registry.Line

/-!
# The productions of a derivation

The tokens of the lexer are such that every symbol of an alternative can be told from its neighbours
in a line: names have no blanks, quoted literals end at their own quote. A line that is written for
an alternative therefore reads back as the alternative, with the precedence marks split off.
-/

namespace ParserGenerator

open Text

namespace Lexer

/-! ## Names -/

theorem isNameChar_of_isNameStart {c : Char} (h : isNameStart c = true) : isNameChar c = true := by
  rw [isNameStart, Bool.or_eq_true] at h
  rw [isNameChar, Char.isAlphanum]
  rcases h with h | h <;> simp [h]

theorem isName_chars {name : String} (h : IsName name) :
    ∀ c ∈ name.toList, isNameChar c = true := by
  obtain ⟨c, rest, hname, hc, hrest⟩ := h
  rw [hname]
  intro x hx
  rcases List.mem_cons.1 hx with rfl | hx
  · exact isNameChar_of_isNameStart hc
  · exact List.all_eq_true.1 hrest x hx

theorem IsName.append {name suffix : String} (h : IsName name)
    (hsuffix : suffix.toList.all isNameChar = true) : IsName (name ++ suffix) := by
  obtain ⟨c, rest, hname, hc, hrest⟩ := h
  refine ⟨c, rest ++ suffix.toList, by simp [hname], hc, ?_⟩
  rw [List.all_append, hrest, hsuffix]
  rfl

theorem IsName.derived {name : String} (h : IsName name) (kind : FamilyKind) :
    IsName (kind.derived name) := by
  apply h.append
  cases kind <;> decide

theorem toNat_of_isNameChar {c : Char} (h : isNameChar c = true) :
    (65 ≤ c.toNat ∧ c.toNat ≤ 90) ∨ (97 ≤ c.toNat ∧ c.toNat ≤ 122) ∨
      (48 ≤ c.toNat ∧ c.toNat ≤ 57) ∨ c.toNat = 95 := by
  delta isNameChar Char.isAlphanum Char.isAlpha Char.isUpper Char.isLower Char.isDigit at h
  simp only [Bool.or_eq_true, Bool.and_eq_true, decide_eq_true_eq, beq_iff_eq, ge_iff_le,
    UInt32.le_iff_toNat_le] at h
  rcases h with ((h | h) | h) | rfl
  · exact .inl h
  · exact .inr (.inl h)
  · exact .inr (.inr (.inl h))
  · exact .inr (.inr (.inr rfl))

theorem isBlank_of_isNameChar {c : Char} (h : isNameChar c = true) : isBlank c = false := by
  have hc := toNat_of_isNameChar h
  simp only [isBlank, blanks, Ranges.holds, List.any_cons, List.any_nil, Bool.or_eq_false_iff,
    Bool.and_eq_false_iff, decide_eq_false_iff_not, and_true]
  refine ⟨?_, ?_, ?_, ?_, ?_, ?_, ?_, ?_, ?_, ?_⟩ <;> omega

theorem ne_of_isNameChar {c d : Char} (h : isNameChar c = true) (hd : isNameChar d = false) :
    c ≠ d := by
  rintro rfl
  rw [h] at hd
  cases hd

theorem isQuote_of_isNameChar {c : Char} (h : isNameChar c = true) : Symbols.isQuote c = false := by
  have hsingle := ne_of_isNameChar h (d := '\'') (by decide)
  have hdouble := ne_of_isNameChar h (d := '"') (by decide)
  simp [Symbols.isQuote, hsingle, hdouble]

theorem IsName.isSymbol {name : String} (h : IsName name) : Symbols.IsSymbol name.toList := by
  have hchars := isName_chars h
  obtain ⟨c, rest, hname, hc, -⟩ := h
  refine ⟨c, rest, hname, .inr ⟨?_, ?_⟩⟩
  · exact isQuote_of_isNameChar (isNameChar_of_isNameStart hc)
  · intro x hx
    exact isBlank_of_isNameChar (hchars x hx)

theorem IsName.isHead {name : String} (h : IsName name) : Production.IsHead name.toList := by
  have hchars := isName_chars h
  obtain ⟨c, rest, hname, -⟩ := h
  refine ⟨by simp [hname], ?_, ?_⟩
  · intro hmem
    have hcolon := hchars ':' hmem
    cases hcolon
  · intro x hx
    exact isBlank_of_isNameChar (hchars x hx)

theorem IsName.ne_precMark {name : String} (h : IsName name) : name ≠ Symbols.precMark := by
  rintro rfl
  have hpercent := isName_chars h '%' (by decide)
  cases hpercent

theorem isSymbol_of_quoted {text : String} (h : Shaped (.quoted text)) :
    Symbols.IsSymbol text.toList ∧ text ≠ Symbols.precMark := by
  obtain ⟨mark, body, hmark, htext, hbody⟩ := h
  refine ⟨⟨mark, body ++ [mark], htext, .inl ⟨?_, body, rfl, fun hmem ↦ (hbody _ hmem).1 rfl⟩⟩, ?_⟩
  · obtain rfl | rfl := hmark <;> decide
  · rintro rfl
    have hhead : some '%' = some mark := congrArg List.head? htext
    obtain rfl | rfl := hmark <;> simp at hhead

end Lexer

namespace Derivation

open Lexer

/-- All tokens of a tree are tokens that the lexer makes. -/
def AllShaped (ts : List Token) : Prop := ∀ t ∈ ts, Shaped t

theorem AllShaped.mono {a b : List Token} (h : AllShaped b) (hsub : a ⊆ b) : AllShaped a :=
  fun t ht ↦ h t (hsub ht)

theorem Reference.isName_symbol {r : Reference} (h : AllShaped r.tokens) : IsName r.symbol := by
  induction r with
  | plain name => exact h (.identifier name) (by simp [Reference.tokens])
  | wrapped kind inner ih =>
    rw [symbol_wrapped]
    apply IsName.derived
    apply ih
    apply h.mono
    simp [Reference.tokens]

/-- A name with the number of an alternative is a name. -/
theorem Clause.isName_nameOf {c : Clause} (h : IsName c.lhs) (index : Nat) :
    IsName (c.nameOf index) := by
  rw [Clause.nameOf]
  split
  · exact h
  · have hdigits : (Nat.toDigits 10 (index + 1)).all isNameChar = true := by
      rw [List.all_eq_true]
      intro d hd
      have hdigit := Nat.isDigit_of_mem_toDigits (by omega) (by omega) hd
      simp [isNameChar, Char.isAlphanum, hdigit]
    have hsuffix : ("_" ++ toString (index + 1)).toList.all isNameChar = true := by
      simpa [toString, isNameChar] using hdigits
    have hname := h.append hsuffix
    rwa [← String.append_assoc] at hname

theorem Element.isSymbol {e : Element} {s : String} (h : AllShaped e.tokens)
    (hs : e.symbol? = some s) : Symbols.IsSymbol s.toList := by
  cases e with
  | action text => cases hs
  | prec =>
    obtain rfl := Option.some.inj hs
    have hall : Symbols.precMark.toList.all (!isBlank ·) = true := by decide
    refine ⟨'%', ['p', 'r', 'e', 'c'], by decide, .inr ⟨by decide, ?_⟩⟩
    intro x hx
    simpa using List.all_eq_true.1 hall x hx
  | quoted text =>
    obtain rfl := Option.some.inj hs
    exact (isSymbol_of_quoted (h _ (by simp [Element.tokens]))).1
  | reference r =>
    obtain rfl := Option.some.inj hs
    exact (Reference.isName_symbol h).isSymbol

/-- Only a precedence mark is written as one. -/
theorem Element.symbol?_eq_precMark {e : Element} (h : AllShaped e.tokens) :
    e.symbol? = some Symbols.precMark ↔ e = .prec := by
  cases e with
  | action text => simp [Element.symbol?]
  | prec => simp [Element.symbol?]
  | quoted text =>
    have hne := (isSymbol_of_quoted (h (.quoted text) (by simp [Element.tokens]))).2
    simp [Element.symbol?, hne]
  | reference r =>
    have hne := (Reference.isName_symbol h).ne_precMark
    simp [Element.symbol?, hne]

/-! ## Precedence marks -/

/-- The items of an alternative that are written in its line. -/
def items (alt : List Element) : List Element := alt.filter (·.symbol?.isSome)

/-- Read from left to right, every precedence mark takes the item after it as its name. -/
def marksTaken : List Element → Bool
  | [] => true
  | [e] => e ≠ .prec
  | e :: next :: rest => if e = .prec then marksTaken rest else marksTaken (next :: rest)

/-- The symbols of the right-hand side: neither precedence marks nor the names that they take. -/
def rhsOf : List Element → List String
  | [] => []
  | [e] => e.symbol?.toList
  | e :: next :: rest =>
    if e = .prec then rhsOf rest else e.symbol?.toList ++ rhsOf (next :: rest)

/-- The name that the last precedence mark takes. -/
def precOf : List Element → Option String
  | [] | [_] => none
  | e :: next :: rest => if e = .prec then precOf rest <|> next.symbol? else precOf (next :: rest)

theorem symbolsOf_cons {e : Element} {s : String} (h : e.symbol? = some s) (es : List Element) :
    symbolsOf (e :: es) = s :: symbolsOf es := List.filterMap_cons_some h

theorem symbolsOf_items (alt : List Element) : symbolsOf (items alt) = symbolsOf alt := by
  unfold symbolsOf items
  rw [List.filterMap_filter]
  congr 1
  funext e
  cases e.symbol? <;> rfl

/-- Splitting off the precedence of a line is reading the marks of the alternative. -/
theorem splitPrec_symbolsOf {es : List Element} (hsome : ∀ e ∈ es, e.symbol?.isSome = true)
    (hprec : ∀ e ∈ es, e.symbol? = some Symbols.precMark ↔ e = .prec) :
    Production.splitPrec (symbolsOf es) =
      if marksTaken es then some (rhsOf es, precOf es) else none := by
  fun_induction marksTaken es with
  | case1 => rfl
  | case2 e =>
    obtain ⟨s, hs⟩ := Option.isSome_iff_exists.1 (hsome e (by simp))
    have hmark : s = Symbols.precMark ↔ e = .prec := by
      simpa [hs] using hprec e (by simp)
    rw [symbolsOf_cons hs]
    by_cases he : e = .prec
    · obtain rfl := hmark.2 he
      simp [he, symbolsOf, Production.splitPrec]
    · rw [Production.splitPrec_cons_of_ne (mt hmark.1 he)]
      simp [he, hs, symbolsOf, Production.splitPrec, rhsOf, precOf]
  | case3 next rest ih =>
    obtain ⟨t, ht⟩ := Option.isSome_iff_exists.1 (hsome next (by simp))
    rw [symbolsOf_cons rfl, symbolsOf_cons ht, Production.splitPrec, if_pos rfl,
      ih (fun e he ↦ hsome e (by simp [he])) fun e he ↦ hprec e (by simp [he]), rhsOf, precOf, ht]
    split <;> simp
  | case4 e next rest he ih =>
    obtain ⟨s, hs⟩ := Option.isSome_iff_exists.1 (hsome e (by simp))
    have hmark : s = Symbols.precMark ↔ e = .prec := by
      simpa [hs] using hprec e (by simp)
    rw [symbolsOf_cons hs, Production.splitPrec_cons_of_ne (mt hmark.1 he),
      ih (fun e he ↦ hsome e (List.mem_cons_of_mem _ he)) fun e he ↦
        hprec e (List.mem_cons_of_mem _ he), rhsOf, precOf, hs]
    split <;> simp

/-! ## Productions -/

/-- An alternative with its clause and its number. -/
structure Place where
  clause : Clause
  index : Nat
  alt : List Element

namespace Place

/-- The rule of an alternative. -/
def rule (p : Place) : Rule := p.clause.ruleOf p.index p.alt

/-- The production of an alternative, under the name of its handler. -/
def production (p : Place) : Production :=
  ⟨"p_" ++ p.clause.nameOf p.index, p.clause.lhs, rhsOf (items p.alt), precOf (items p.alt)⟩

/-- Every precedence mark of the alternative has a name to take. -/
def MarksTaken (p : Place) : Prop := marksTaken (items p.alt) = true

instance (p : Place) : Decidable p.MarksTaken :=
  inferInstanceAs (Decidable (marksTaken (items p.alt) = true))

end Place

/-- The alternatives of a clause in the order of the text. -/
def Clause.places (c : Clause) : List Place := c.alternatives.mapIdx (⟨c, ·, ·⟩)

/-- The alternatives of a file in the order of the text. -/
def File.places (f : File) : List Place := f.clauses.flatMap Clause.places

theorem Clause.rules_eq_map (c : Clause) : c.rules = c.places.map Place.rule := by
  unfold Clause.rules Clause.places
  apply List.ext_getElem
  · simp
  · intro i h1 h2
    simp [Place.rule]

theorem File.rules_eq_map (f : File) : f.grammar.rules = f.places.map Place.rule := by
  have hclause : Clause.rules = fun c ↦ c.places.map Place.rule := by
    funext c
    exact c.rules_eq_map
  calc f.grammar.rules
      = f.clauses.flatMap Clause.rules := rfl
    _ = f.clauses.flatMap fun c ↦ c.places.map Place.rule := by rw [hclause]
    _ = f.places.map Place.rule := List.map_flatMap.symm

theorem Clause.mem_places {c : Clause} {p : Place} (h : p ∈ c.places) :
    p.clause = c ∧ p.alt ∈ c.alternatives := by
  obtain ⟨i, hi, rfl⟩ := List.mem_mapIdx.1 h
  exact ⟨rfl, List.getElem_mem hi⟩

theorem File.mem_places {f : File} {p : Place} (h : p ∈ f.places) :
    p.clause ∈ f.clauses ∧ p.alt ∈ p.clause.alternatives := by
  obtain ⟨c, hc, hp⟩ := List.mem_flatMap.1 h
  obtain ⟨rfl, halt⟩ := Clause.mem_places hp
  exact ⟨hc, halt⟩

/-- Every clause has an alternative. -/
theorem File.exists_place {f : File} {c : Clause} (h : c ∈ f.clauses) :
    ∃ p ∈ f.places, p.clause = c := by
  refine ⟨⟨c, 0, c.first⟩, ?_, rfl⟩
  apply List.mem_flatMap.2
  refine ⟨c, h, ?_⟩
  apply List.mem_mapIdx.2
  exact ⟨0, by simp [Clause.alternatives], rfl⟩

/-! ## Lines of lexed files -/

theorem Clause.tokens_subset {f : File} {c : Clause} (h : c ∈ f.clauses) :
    c.tokens ⊆ f.tokens := by
  intro t ht
  have hmem : t ∈ f.clauses.flatMap Clause.tokens := List.mem_flatMap.2 ⟨c, h, ht⟩
  simp [File.tokens, hmem]

theorem Clause.element_tokens_subset {c : Clause} {alt : List Element} {e : Element}
    (halt : alt ∈ c.alternatives) (he : e ∈ alt) : e.tokens ⊆ c.tokens := by
  intro t ht
  have hmem : t ∈ alt.flatMap Element.tokens := List.mem_flatMap.2 ⟨e, he, ht⟩
  rcases List.mem_cons.1 halt with rfl | hmore
  · simp [Clause.tokens, hmem]
  · have hmore : t ∈ c.more.flatMap
        (fun alt ↦ .punctuation .bar :: alt.flatMap Element.tokens) :=
      List.mem_flatMap.2 ⟨alt, hmore, List.mem_cons_of_mem _ hmem⟩
    simp [Clause.tokens, hmore]

section Shaped

variable {f : File} {p : Place} (h : AllShaped f.tokens) (hp : p ∈ f.places)

include h hp

theorem isName_lhs : IsName p.clause.lhs := by
  have hmem : .identifier p.clause.lhs ∈ p.clause.tokens := by simp [Clause.tokens]
  exact h _ (Clause.tokens_subset (File.mem_places hp).1 hmem)

theorem allShaped_element {e : Element} (he : e ∈ p.alt) : AllShaped e.tokens := by
  obtain ⟨hclause, halt⟩ := File.mem_places hp
  exact (h.mono (Clause.tokens_subset hclause)).mono (Clause.element_tokens_subset halt he)

theorem Place.lhs_rule : p.rule.lhs = p.clause.lhs :=
  Rule.lhs_of_production rfl (isName_lhs h hp).isHead

theorem Place.isSymbol_symbolsOf : ∀ s ∈ symbolsOf p.alt, Symbols.IsSymbol s.toList := by
  intro s hs
  obtain ⟨e, he, hes⟩ := List.mem_filterMap.1 hs
  exact Element.isSymbol (allShaped_element h hp he) hes

/-- Read under any name, the line of an alternative is its production, unless a mark has nothing to
take. -/
theorem Place.parse_line (name : String) :
    Production.parse name p.rule.production =
      if p.MarksTaken then .ok { p.production with name }
      else .error (.malformed name p.rule.production) := by
  have hsplit : Production.splitPrec (symbolsOf p.alt) =
      if p.MarksTaken then some (rhsOf (items p.alt), precOf (items p.alt)) else none := by
    rw [← symbolsOf_items]
    apply splitPrec_symbolsOf
    · intro e he
      exact (List.mem_filter.1 he).2
    · intro e he
      exact Element.symbol?_eq_precMark (allShaped_element h hp (List.mem_filter.1 he).1)
  have hline : p.rule.production = Production.lineOf p.clause.lhs (symbolsOf p.alt) := rfl
  rw [hline, Production.parse_lineOf (isName_lhs h hp).isHead (Place.isSymbol_symbolsOf h hp),
    hsplit]
  by_cases hmarks : p.MarksTaken
  · rw [if_pos hmarks, if_pos hmarks]
    rfl
  · rw [if_neg hmarks, if_neg hmarks]

/-- The line of an alternative reads back as its production, unless a mark has nothing to take. -/
theorem Place.parse_rule :
    (Production.parse p.rule.handler p.rule.production).toOption =
      if p.MarksTaken then some p.production else none := by
  rw [Place.parse_line h hp]
  split
  · rfl
  · rfl

end Shaped

end Derivation

end ParserGenerator
