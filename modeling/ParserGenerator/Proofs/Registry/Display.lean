import ParserGenerator.Proofs.Registry.Line
import ParserGenerator.Proofs.Text.Trimming

/-!
# Productions read back

The text of a production is a line again, with one blank in front of every symbol and the borrowed
precedence at the end. A line splits into words, texts between quotes and, in the last place only, a
quote that does not end. All of these are found again where the text has them, so the text reads
back as the production. The exception is a quote without an end in front of a precedence mark: it
takes the mark as well, and what is read is another production or none.
-/

namespace ParserGenerator

open Text

namespace Symbols

/-! ## What a text splits into -/

/-- A quote that does not end. In a line it takes all that follows it. -/
def IsUnclosed : List Char → Prop
  | [] => False
  | c :: rest => isQuote c = true ∧ c ∉ rest

instance : DecidablePred IsUnclosed
  | [] => .isFalse id
  | c :: rest => inferInstanceAs (Decidable (isQuote c = true ∧ c ∉ rest))

/-- Symbols that a text can be split into. -/
inductive IsSplit : List (List Char) → Prop
  | nil : IsSplit []
  | unclosed {w : List Char} (h : IsUnclosed w) : IsSplit [w]
  | cons {w : List Char} {words : List (List Char)} (hw : IsSymbol w) (h : IsSplit words) :
    IsSplit (w :: words)

namespace IsSplit

variable {w : List Char} {words before : List (List Char)}

theorem tail (h : IsSplit (w :: words)) : IsSplit words := by
  cases h with
  | unclosed => exact .nil
  | cons _ h => exact h

/-- What is left when symbols are left out. -/
theorem sublist (hsub : before.Sublist words) (h : IsSplit words) : IsSplit before := by
  induction hsub with
  | slnil => exact .nil
  | cons _ _ ih => exact ih h.tail
  | cons_cons _ hsub ih =>
    cases h with
    | unclosed h =>
      rw [List.sublist_nil.1 hsub]
      exact .unclosed h
    | cons hw h => exact .cons hw (ih h)

theorem append (hbefore : ∀ w ∈ before, IsSymbol w) (h : IsSplit words) :
    IsSplit (before ++ words) := by
  induction before with
  | nil => exact h
  | cons w before ih =>
    rw [List.forall_mem_cons] at hbefore
    exact .cons hbefore.1 (ih hbefore.2)

/-- Only the last symbol can be a quote that does not end. -/
theorem isSymbol_of_append (h : IsSplit (before ++ [w])) : ∀ v ∈ before, IsSymbol v := by
  induction before with
  | nil => simp
  | cons v before ih =>
    cases hrest : before ++ [w] with
    | nil => simp at hrest
    | cons u words =>
      rw [List.cons_append, hrest] at h
      cases h with
      | cons hv h => exact List.forall_mem_cons.2 ⟨hv, ih (hrest ▸ h)⟩

theorem isSymbol_or_isUnclosed (h : IsSplit words) :
    ∀ v ∈ words, IsSymbol v ∨ IsUnclosed v := by
  induction h with
  | nil => simp
  | unclosed h => simp [h]
  | cons hw _ ih => exact List.forall_mem_cons.2 ⟨.inl hw, ih⟩

theorem isSymbol (h : IsSplit words) (hlast : ∀ v ∈ words.getLast?, ¬ IsUnclosed v) :
    ∀ v ∈ words, IsSymbol v := by
  rcases List.eq_nil_or_concat' words with rfl | ⟨before, w, rfl⟩
  · simp
  · intro v hv
    rcases List.mem_append.1 hv with hv | hv
    · exact h.isSymbol_of_append v hv
    · obtain rfl := List.mem_singleton.1 hv
      exact (h.isSymbol_or_isUnclosed v (by simp)).resolve_right (hlast v (by simp))

end IsSplit

/-- What is taken from a text is a symbol, or all of it from a quote that does not end. -/
theorem take_cases {c : Char} (hc : isBlank c = false) (rest : List Char) :
    IsSymbol (take c rest).1 ∨ (IsUnclosed (take c rest).1 ∧ (take c rest).2 = []) := by
  fun_cases take c rest with
  | case1 hquote hdrop =>
    have hrest : c ∉ rest := by
      intro hmem
      simpa using List.dropWhile_eq_nil_iff.1 hdrop c hmem
    exact .inr ⟨⟨hquote, hrest⟩, rfl⟩
  | case2 hquote x after hdrop =>
    exact .inl ⟨c, _, rfl, .inl ⟨hquote, _, rfl, not_mem_takeWhile c rest⟩⟩
  | case3 hquote =>
    refine .inl ⟨c, _, rfl, .inr ⟨by simpa using hquote, List.forall_mem_cons.2 ⟨hc, ?_⟩⟩⟩
    intro x hx
    simpa using List.mem_takeWhile_imp hx

theorem isSplit_ofChars (cs : List Char) : IsSplit (ofChars cs) := by
  fun_induction ofChars cs with
  | case1 cs h => exact .nil
  | case2 cs c rest h ih =>
    have hc : isBlank c = false := head?_dropWhile isBlank cs c (by rw [← trimStart, h]; rfl)
    rcases take_cases hc rest with hsymbol | ⟨hunclosed, hnil⟩
    · exact .cons hsymbol ih
    · rw [hnil, ofChars_nil]
      exact .unclosed hunclosed

theorem take_of_not_mem {c : Char} {rest : List Char} (hc : isQuote c = true) (hrest : c ∉ rest) :
    take c rest = (c :: rest, []) := by
  have hdrop : rest.dropWhile (· != c) = [] := by
    rw [List.dropWhile_eq_nil_iff]
    exact fun x hx ↦ by simpa using fun heq : x = c ↦ hrest (heq ▸ hx)
  rw [take, if_pos hc, hdrop]

/-- Whatever a text was split into, each after a blank, is split into itself. -/
theorem IsSplit.ofChars_eq {words : List (List Char)} (h : IsSplit words) :
    ofChars (words.flatMap (' ' :: ·)) = words := by
  induction h with
  | nil => exact ofChars_nil
  | @unclosed w h =>
    cases w with
    | nil => exact h.elim
    | cons c rest =>
      have htrim : trimStart (c :: rest) = c :: rest :=
        List.dropWhile_cons_of_neg (by simp [isBlank_of_isQuote h.1])
      rw [List.flatMap_singleton, ofChars_cons_blank, ofChars_of_trimStart_cons htrim,
        take_of_not_mem h.1 h.2, ofChars_nil]
  | cons hw _ ih =>
    have hend : ∀ x ∈ ([] : List Char).head?, isBlank x = true := by simp
    rw [List.flatMap_cons, List.cons_append, ofChars_cons_blank,
      ofChars_append hw (by simpa using isBlank_head_flatMap hend), ih]

/-- A quote that does not end takes more of a longer text. -/
theorem take_unclosed_append_ne {c : Char} {rest after : List Char} (h : IsUnclosed (c :: rest))
    (hafter : after ≠ []) : (take c (rest ++ after)).1 ≠ c :: rest := by
  rw [take, if_pos h.1]
  split
  · simpa using hafter
  · intro heq
    exact h.2 ((List.cons.inj heq).2 ▸ by simp)

/-- The symbols in front of a quote that does not end are found, and the quote takes what it can. -/
theorem ofChars_unclosed {before : List (List Char)} (hbefore : ∀ w ∈ before, IsSymbol w) {c : Char}
    {rest : List Char} (h : IsUnclosed (c :: rest)) (after : List Char) :
    ofChars (before.flatMap (' ' :: ·) ++ ' ' :: c :: (rest ++ after)) =
      before ++ (take c (rest ++ after)).1 :: ofChars (take c (rest ++ after)).2 := by
  have hblank : ∀ x ∈ (' ' :: c :: (rest ++ after)).head?, isBlank x = true := by
    intro x hx
    obtain rfl : ' ' = x := by simpa using hx
    decide
  have htrim : trimStart (c :: (rest ++ after)) = c :: (rest ++ after) :=
    List.dropWhile_cons_of_neg (by simp [isBlank_of_isQuote h.1])
  rw [ofChars_flatMap_append hbefore hblank, ofChars_cons_blank, ofChars_of_trimStart_cons htrim]

/-- Symbols that are joined by single blanks are split into themselves. -/
theorem split_joinWith_split (text : String) : split (joinWith " " (split text)) = split text := by
  have hsplit := isSplit_ofChars text.toList
  unfold split at *
  cases hwords : (ofChars text.toList).map String.ofList with
  | nil => simp [joinWith, ofChars_nil]
  | cons word words =>
    have hlist : (word :: words).map String.toList = ofChars text.toList := by
      rw [← hwords, map_toList_ofList]
    rw [← ofChars_cons_blank, cons_joinWith, hlist, hsplit.ofChars_eq, hwords]

end Symbols

namespace Production

open Symbols

/-! ## Marks -/

theorem splitPrec_append {before : List String} (h : precMark ∉ before) (items : List String) :
    splitPrec (before ++ items) =
      (splitPrec items).map fun split ↦ (before ++ split.1, split.2) := by
  induction before with
  | nil => simp
  | cons symbol before ih =>
    rw [List.mem_cons, not_or] at h
    rw [List.cons_append, splitPrec_cons_of_ne (Ne.symm h.1), ih h.2, Option.map_map]
    rfl

/-- The right-hand side is what is left when the marks and their names are left out. -/
theorem of_splitPrec {items rhs : List String} {prec : Option String}
    (h : splitPrec items = some (rhs, prec)) :
    rhs.Sublist items ∧ precMark ∉ rhs ∧ ∀ name ∈ prec, name ∈ items := by
  fun_induction splitPrec items generalizing rhs prec with
  | case1 =>
    obtain ⟨rfl, rfl⟩ := Prod.mk.inj (Option.some.inj h)
    simp
  | case2 => cases h
  | case3 symbol hne =>
    obtain ⟨rfl, rfl⟩ := Prod.mk.inj (Option.some.inj h)
    simpa using Ne.symm hne
  | case4 next rest ih =>
    -- A later mark wins over this one; the name of either is an item.
    obtain ⟨⟨rhs', prec'⟩, hrest, heq⟩ := Option.map_eq_some_iff.1 h
    obtain ⟨rfl, rfl⟩ := Prod.mk.inj heq
    obtain ⟨hsub, hmark, hprec⟩ := ih hrest
    refine ⟨(hsub.cons _).cons _, hmark, ?_⟩
    intro name hname
    cases prec' with
    | none =>
      obtain rfl : next = name := by simpa using hname
      simp
    | some last =>
      obtain rfl : last = name := by simpa using hname
      simp [hprec last rfl]
  | case5 symbol next rest hne ih =>
    obtain ⟨⟨rhs', prec'⟩, hrest, heq⟩ := Option.map_eq_some_iff.1 h
    obtain ⟨rfl, rfl⟩ := Prod.mk.inj heq
    obtain ⟨hsub, hmark, hprec⟩ := ih hrest
    refine ⟨hsub.cons_cons _, ?_, fun name hname ↦ List.mem_cons_of_mem _ (hprec name hname)⟩
    rw [List.mem_cons, not_or]
    exact ⟨Ne.symm hne, hmark⟩

/-! ## The text of a production -/

/-- The symbols that the text of a production shows behind the colon. -/
def symbols (p : Production) : List String :=
  p.rhs ++ match p.prec with
    | some prec => [precMark, prec]
    | none => []

theorem toList_concat_blanks (words : List String) :
    (concat (words.map (" " ++ ·))).toList = (words.map String.toList).flatMap (' ' :: ·) := by
  induction words with
  | nil => rfl
  | cons word words ih =>
    rw [List.map_cons, concat, String.toList_append, ih, List.map_cons, List.flatMap_cons]
    simp

theorem toList_text (p : Production) :
    p.text.toList =
      p.lhs.toList ++ ' ' :: ':' :: (p.symbols.map String.toList).flatMap (' ' :: ·) := by
  unfold text symbols
  cases p.prec <;> simp [toList_concat_blanks]

theorem splitPrec_symbols {p : Production} (h : precMark ∉ p.rhs) :
    splitPrec p.symbols = some (p.rhs, p.prec) := by
  rw [symbols, splitPrec_append h]
  cases p.prec <;> simp [splitPrec]

theorem isHead_trim {cs before after : List Char} (h : cutAt ':' cs = some (before, after))
    (hsymbol : isSymbol (trim before) = true) : IsHead (trim before) := by
  rw [isSymbol, Bool.and_eq_true, Bool.not_eq_true', Bool.not_eq_true',
    List.any_eq_false] at hsymbol
  refine ⟨by simpa using hsymbol.1, ?_, fun x hx ↦ by simpa using hsymbol.2 x hx⟩
  exact fun hcolon ↦ (append_of_cutAt h).2 (mem_of_mem_trim hcolon)

/-- An accepted line has a left-hand side in front of its first colon, and the symbols behind the
colon give the rest of the production. -/
theorem of_parse {name line : String} {p : Production} (h : parse name line = .ok p) :
    IsHead p.lhs.toList ∧
      ∃ after, splitPrec ((ofChars after).map String.ofList) = some (p.rhs, p.prec) := by
  unfold parse at h
  cases hcut : cutAt ':' line.toList with
  | none =>
    rw [hcut] at h
    cases h
  | some cut =>
    obtain ⟨before, after⟩ := cut
    simp only [hcut] at h
    split at h
    · next hsymbol =>
      cases hsplit : splitPrec ((ofChars after).map String.ofList) with
      | none =>
        rw [hsplit] at h
        cases h
      | some split =>
        rw [hsplit] at h
        obtain rfl := Except.ok.inj h
        refine ⟨?_, after, hsplit⟩
        rw [String.toList_ofList]
        exact isHead_trim hcut hsymbol
    · cases h

/-- The last symbol is a quote that does not end and a mark comes after it. -/
def HidesMark (p : Production) : Prop :=
  p.prec ≠ none ∧ ∃ last ∈ p.rhs.getLast?, IsUnclosed last.toList

instance (p : Production) : Decidable p.HidesMark :=
  inferInstanceAs (Decidable (p.prec ≠ none ∧ ∃ last ∈ p.rhs.getLast?, IsUnclosed last.toList))

/-- What is known of a production that a line was accepted for. -/
structure IsParsed (p : Production) : Prop where
  isHead : IsHead p.lhs.toList
  isSplit_rhs : IsSplit (p.rhs.map String.toList)
  isSplit_prec : ∀ name ∈ p.prec, IsSplit [name.toList]
  no_mark : precMark ∉ p.rhs

theorem isParsed_of_parse {name line : String} {p : Production} (h : parse name line = .ok p) :
    IsParsed p := by
  obtain ⟨hhead, after, hsplit⟩ := of_parse h
  obtain ⟨hsub, hmark, hprec⟩ := of_splitPrec hsplit
  have hitems : IsSplit (((ofChars after).map String.ofList).map String.toList) := by
    rw [map_toList_ofList]
    exact isSplit_ofChars after
  refine ⟨hhead, hitems.sublist (hsub.map _), ?_, hmark⟩
  intro name hname
  exact hitems.sublist (List.singleton_sublist.2 (List.mem_map_of_mem (hprec name hname)))

theorem isSymbol_precMark : IsSymbol precMark.toList := by
  have hword : precMark.toList.all (!isBlank ·) = true := by decide
  refine ⟨'%', ['p', 'r', 'e', 'c'], rfl, .inr ⟨by decide, ?_⟩⟩
  intro x hx
  simpa using List.all_eq_true.1 hword x hx

/-- All symbols of the text are found again if no quote takes the mark. -/
theorem IsParsed.isSplit_symbols {p : Production} (h : p.IsParsed) (hmark : ¬ p.HidesMark) :
    IsSplit (p.symbols.map String.toList) := by
  cases hprec : p.prec with
  | none => simpa [symbols, hprec] using h.isSplit_rhs
  | some name =>
    have hlast : ∀ w ∈ (p.rhs.map String.toList).getLast?, ¬ IsUnclosed w := by
      intro w hw hunclosed
      rw [List.getLast?_map] at hw
      obtain ⟨last, hlast, rfl⟩ := Option.map_eq_some_iff.1 hw
      exact hmark ⟨by simp [hprec], last, hlast, hunclosed⟩
    rw [symbols, hprec, List.map_append]
    exact IsSplit.append (h.isSplit_rhs.isSymbol hlast)
      (.cons isSymbol_precMark (h.isSplit_prec name hprec))

theorem parse_text_of_isParsed {p : Production} (h : p.IsParsed) (hmark : ¬ p.HidesMark)
    (name : String) : parse name p.text = .ok { p with name } := by
  have hsymbols : (ofChars ((p.symbols.map String.toList).flatMap (' ' :: ·))).map String.ofList =
      p.symbols := by
    rw [(h.isSplit_symbols hmark).ofChars_eq, map_ofList_toList]
  rw [parse_of_toList p.toList_text h.isHead, hsymbols, splitPrec_symbols h.no_mark]

theorem ofList_take_ne_precMark {c : Char} (h : isQuote c = true) (rest : List Char) :
    String.ofList (take c rest).1 ≠ precMark := by
  have hhead : (take c rest).1.head? = some c := by
    rw [take, if_pos h]
    split <;> rfl
  intro heq
  have hmark : precMark.toList.head? = some c := by rw [← heq, String.toList_ofList, hhead]
  obtain rfl : '%' = c := Option.some.inj hmark
  exact absurd h (by decide)

/-- A production that hides its mark has its quote as the last symbol, and no other one. -/
theorem IsParsed.exists_of_hidesMark {p : Production} (h : p.IsParsed) (hmark : p.HidesMark) :
    ∃ before c rest prec, p.rhs = before ++ [String.ofList (c :: rest)] ∧ p.prec = some prec ∧
      IsUnclosed (c :: rest) ∧ ∀ w ∈ before.map String.toList, IsSymbol w := by
  obtain ⟨hprec, last, hlast, hunclosed⟩ := hmark
  obtain ⟨prec, hprec⟩ := Option.ne_none_iff_exists'.1 hprec
  obtain ⟨before, hrhs⟩ := List.getLast?_eq_some_iff.1 hlast
  have hsplit := h.isSplit_rhs
  rw [hrhs, List.map_append, List.map_singleton] at hsplit
  cases hquote : last.toList with
  | nil =>
    rw [hquote] at hunclosed
    exact hunclosed.elim
  | cons c rest =>
    refine ⟨before, c, rest, prec, ?_, hprec, hquote ▸ hunclosed, hsplit.isSymbol_of_append⟩
    rw [hrhs, ← hquote, String.ofList_toList]

/-- A quote that takes the mark is read as another symbol. -/
theorem rhs_ne_of_hidesMark {p q : Production} (h : p.IsParsed) (hmark : p.HidesMark)
    {name : String} (hq : parse name p.text = .ok q) : q.rhs ≠ p.rhs := by
  obtain ⟨before, c, rest, prec, hrhs, hprec, hunclosed, hbefore⟩ := h.exists_of_hidesMark hmark
  have hno : precMark ∉ before := fun hmem ↦ h.no_mark (hrhs ▸ List.mem_append_left _ hmem)
  let after := [precMark.toList, prec.toList].flatMap (' ' :: ·)
  have hline : (p.symbols.map String.toList).flatMap (' ' :: ·) =
      (before.map String.toList).flatMap (' ' :: ·) ++ ' ' :: c :: (rest ++ after) := by
    simp [symbols, hrhs, hprec, after]
  rw [parse_of_toList p.toList_text h.isHead, hline, ofChars_unclosed hbefore hunclosed,
    List.map_append, map_ofList_toList, List.map_cons, splitPrec_append hno,
    splitPrec_cons_of_ne (ofList_take_ne_precMark hunclosed.1 _), Option.map_map] at hq
  -- What comes after the quote does not matter, as the symbol there has changed already.
  generalize splitPrec _ = read at hq
  cases read with
  | none => cases hq
  | some split =>
    obtain rfl := Except.ok.inj hq
    intro heq
    rw [hrhs] at heq
    have htaken := (List.cons.inj (List.append_cancel_left heq)).1
    have hne : after ≠ [] := by simp [after]
    exact take_unclosed_append_ne hunclosed hne (String.ofList_injective htaken)

/-- The text of a production that was read from a line is read as the same production, under every
name, if and only if no quote without an end stands in front of a precedence mark. So two such
productions with the same text have the same shape. The symbols of any text are found again when
they are joined by single blanks. -/
theorem parse_text :
    (∀ (name line : String) (p : Production), parse name line = .ok p →
      ∀ name', parse name' p.text = .ok { p with name := name' } ↔ ¬ p.HidesMark) ∧
    (∀ (name line : String) (p : Production), parse name line = .ok p →
      ∀ (name' line' : String) (q : Production), parse name' line' = .ok q →
        ¬ p.HidesMark → ¬ q.HidesMark → p.text = q.text → p.sameShape q = true) ∧
    ∀ text, split (joinWith " " (split text)) = split text := by
  refine ⟨?_, ?_, split_joinWith_split⟩
  · intro name line p hp name'
    have h := isParsed_of_parse hp
    constructor
    · intro hread hmark
      exact rhs_ne_of_hidesMark h hmark hread rfl
    · intro hmark
      exact parse_text_of_isParsed h hmark name'
  · intro name line p hp name' line' q hq hmark hmark' htext
    have hread := parse_text_of_isParsed (isParsed_of_parse hp) hmark name
    rw [htext, parse_text_of_isParsed (isParsed_of_parse hq) hmark' name] at hread
    obtain ⟨-, hlhs, hrhs, hprec⟩ := Production.mk.inj (Except.ok.inj hread)
    simp [sameShape, hlhs, hrhs, hprec]

/-- Symbols without blanks between them, an apostrophe and a colon inside of words, a mark too many,
and a quote without an end: as the name of a precedence it is harmless, as a symbol it is not. -/
theorem parse_text_glued :
    let p : Production := ⟨"p_x", "x", ["'a b'", "c", "d'e:"], some "\"open  "⟩
    let q : Production := { p with name := "p_y" }
    let r : Production := ⟨"p_x", "x", ["c", "\"open  "], some "%prec"⟩
    (parse "p_x" "x : 'a b'c %prec U d'e: %prec \"open  " = .ok p ∧ ¬ p.HidesMark ∧
      parse "p_z" p.text = .ok { p with name := "p_z" }) ∧
    (parse "p_y" "x: 'a b'\tc d'e:\t%prec \"open  " = .ok q ∧ ¬ q.HidesMark ∧ p.text = q.text ∧
      p.sameShape q = true) ∧
    (parse "p_x" "x : %prec %prec c \"open  " = .ok r ∧ r.HidesMark ∧
      parse "p_x" r.text ≠ .ok r) := by
  intro p q r
  obtain ⟨hread, hshape, -⟩ := parse_text
  have hp : parse "p_x" "x : 'a b'c %prec U d'e: %prec \"open  " = .ok p := by decide +kernel
  have hq : parse "p_y" "x: 'a b'\tc d'e:\t%prec \"open  " = .ok q := by decide +kernel
  have hr : parse "p_x" "x : %prec %prec c \"open  " = .ok r := by decide +kernel
  have hpmark : ¬ p.HidesMark := by decide +kernel
  have hqmark : ¬ q.HidesMark := by decide +kernel
  have hrmark : r.HidesMark := by decide +kernel
  refine ⟨⟨hp, hpmark, (hread _ _ p hp "p_z").2 hpmark⟩,
    ⟨hq, hqmark, rfl, hshape _ _ p hp _ _ q hq hpmark hqmark rfl⟩, hr, hrmark, ?_⟩
  intro hsame
  exact (hread _ _ r hr "p_x").1 hsame hrmark

end Production

end ParserGenerator
