import ParserGenerator.Proofs.Lexer.Tiling

/-!
# What a segment can see

The lexer looks past the segment that it cuts off: a quote looks for its partner on the same line,
also in the code of an action block, a keyword is told from a stray sign by the letters after it,
and a run ends where another character follows. So the text after a segment can matter.

It does not matter where the text is broken off: if two texts agree up to some character and the
second one then ends or goes on in a new line, every segment in front of the first is also cut off
in front of the second. A backslash must not be the last character in common, for it would take the
line feed with it.
-/

namespace ParserGenerator.Lexer

open Text

/-- The text is empty or starts with a line feed. -/
def EndsLine (cs : List Char) : Prop := ∀ c ∈ cs.head?, c = '\n'

/-- The two texts agree up to some character, after which the second one ends its line. -/
inductive BreaksOff : List Char → List Char → Prop
  | last {c : Char} (hc : c ≠ '\\') (u : List Char) {v : List Char} (hv : EndsLine v) :
    BreaksOff (c :: u) (c :: v)
  | cons (c : Char) {u v : List Char} (h : BreaksOff u v) : BreaksOff (c :: u) (c :: v)

namespace BreaksOff

variable {u v : List Char}

theorem append (w : List Char) (h : BreaksOff u v) : BreaksOff (w ++ u) (w ++ v) := by
  induction w with
  | nil => exact h
  | cons c w ih => exact .cons c ih

theorem head? (h : BreaksOff u v) : v.head? = u.head? := by
  cases h <;> rfl

theorem ne_nil (h : BreaksOff u v) : v ≠ [] := by
  cases h <;> simp

theorem left_ne_nil (h : BreaksOff u v) : u ≠ [] := by
  cases h <;> simp

/-- A word on one line that the second text starts with is in the first text too. -/
theorem isPrefix {word : List Char} (h : BreaksOff u v) (hword : '\n' ∉ word)
    (hv : word <+: v) : word <+: u := by
  induction h generalizing word with
  | @last c _ u v hends =>
    cases word with
    | nil => exact List.nil_prefix
    | cons x word =>
      obtain ⟨rfl, hrest⟩ := List.cons_prefix_cons.1 hv
      cases word with
      | nil => simp
      | cons y word =>
        obtain ⟨t, rfl⟩ := hrest
        exact absurd (hends y rfl) fun hy ↦ hword (by simp [hy])
  | @cons c u v _ ih =>
    cases word with
    | nil => exact List.nil_prefix
    | cons x word =>
      obtain ⟨rfl, hrest⟩ := List.cons_prefix_cons.1 hv
      exact List.cons_prefix_cons.2 ⟨rfl, ih (fun hmem ↦ hword (List.mem_cons_of_mem _ hmem)) hrest⟩

end BreaksOff

/-- A run ends at the same place when the text after it is broken off. -/
theorem span_of_breaksOff {p : Char → Bool} {rest v : List Char}
    (hb : BreaksOff (rest.dropWhile p) v) :
    (rest.takeWhile p ++ v).takeWhile p = rest.takeWhile p ∧
      (rest.takeWhile p ++ v).dropWhile p = v := by
  apply span_append
  · exact List.all_eq_true.1 List.all_takeWhile
  · rw [hb.head?]
    exact head?_dropWhile p rest

/-! ## Strings and characters in code -/

theorem stringTail_of_endsLine {v : List Char} (h : EndsLine v) : stringTail v = none := by
  cases v with
  | nil => rfl
  | cons c v =>
    obtain rfl := h c rfl
    rfl

theorem stringTail_cons {c : Char} (hquote : c ≠ '"') (hfeed : c ≠ '\n') (hescape : c ≠ '\\')
    (rest : List Char) :
    stringTail (c :: rest) = (stringTail rest).map fun cut ↦ (c :: cut.1, cut.2) := by
  rw [stringTail] <;> simp_all

/-- A string that is closed is cut off in front of every text. -/
theorem stringTail_append {cs tail after : List Char} (h : stringTail cs = some (tail, after))
    (v : List Char) : stringTail (tail ++ v) = some (tail, v) := by
  fun_induction stringTail cs generalizing tail with
  | case1 => simp at h
  | case2 rest =>
    obtain ⟨rfl, -⟩ := Prod.mk.inj (Option.some.inj h)
    rfl
  | case3 => simp at h
  | case4 c rest ih =>
    obtain ⟨cut, hcut, heq⟩ := Option.map_eq_some_iff.1 h
    obtain ⟨rfl, rfl⟩ := Prod.mk.inj heq
    simp [stringTail, ih hcut]
  | case5 c rest hquote hfeed hescape ih =>
    obtain ⟨cut, hcut, heq⟩ := Option.map_eq_some_iff.1 h
    obtain ⟨rfl, rfl⟩ := Prod.mk.inj heq
    have hne : c ≠ '\\' := by
      rintro rfl
      cases rest with
      | nil => simp [stringTail] at hcut
      | cons d rest => exact hescape d rest rfl rfl
    rw [List.cons_append, stringTail_cons hquote hfeed hne, ih hcut]
    rfl

/-- A string that is not closed on its line is not closed when the text is broken off. -/
theorem stringTail_eq_none_of_breaksOff {u v : List Char} (hb : BreaksOff u v)
    (h : stringTail u = none) : stringTail v = none := by
  fun_induction stringTail v generalizing u with
  | case1 => rfl
  | case2 rest => cases hb <;> simp [stringTail] at h
  | case3 => rfl
  | case4 c rest ih =>
    cases hb with
    | last hc => exact absurd rfl hc
    | cons _ hb =>
      cases hb with
      | last _ u hv => simp [stringTail_of_endsLine hv]
      | cons _ hb =>
        have hu := Option.map_eq_none_iff.1 h
        rw [ih hb hu]
        rfl
  | case5 c rest hquote hfeed hescape ih =>
    cases hb with
    | last _ u hv => simp [stringTail_of_endsLine hv]
    | cons _ hb =>
      obtain ⟨d, rest, rfl⟩ := List.exists_cons_of_ne_nil hb.ne_nil
      have hne : c ≠ '\\' := fun hc ↦ hescape d rest hc rfl
      rw [stringTail_cons hquote hfeed hne, Option.map_eq_none_iff] at h
      rw [ih hb h]
      rfl

/-- A mark that is not found on its line is not found when the text is broken off. -/
theorem head?_dropWhile_of_breaksOff {mark : Char} (hmark : mark ≠ '\n') {u v : List Char}
    (hb : BreaksOff u v) (h : (u.dropWhile fun x ↦ x != mark && x != '\n').head? ≠ some mark) :
    (v.dropWhile fun x ↦ x != mark && x != '\n').head? ≠ some mark := by
  induction hb with
  | @last c hc u v hv =>
    by_cases hcm : c = mark
    · simp [hcm] at h
    · by_cases hcn : c = '\n'
      · simp [hcn, Ne.symm hmark]
      · cases v with
        | nil => simp [hcm, hcn]
        | cons d v =>
          obtain rfl := hv d rfl
          simp [hcm, hcn, Ne.symm hmark]
  | cons c hb ih =>
    by_cases hcm : c = mark
    · simp [hcm] at h
    · by_cases hcn : c = '\n'
      · simp [hcn, Ne.symm hmark]
      · simp_all

/-- A character literal that is closed is cut off in front of every text. -/
theorem characterTail_append {cs tail after : List Char}
    (h : characterTail cs = some (tail, after)) (v : List Char) :
    characterTail (tail ++ v) = some (tail, v) := by
  fun_cases characterTail cs with
  | case1 c rest hc after' hrest =>
    simp only [characterTail, hc, if_true, hrest, Option.some.injEq, Prod.mk.injEq] at h
    obtain ⟨rfl, rfl⟩ := h
    have hall := List.all_eq_true.1
      (List.all_takeWhile (p := fun x ↦ x != '\'' && x != '\n') (l := rest))
    have hstop : ∀ x ∈ ('\'' :: v).head?, (x != '\'' && x != '\n') = false := by simp
    obtain ⟨htake, hdrop⟩ := span_append hall hstop
    simp only [List.cons_append, List.append_assoc, List.nil_append, characterTail, hc, if_true,
      hdrop, htake]
  | case2 c rest hc hrest => simp_all [characterTail]
  | case3 c rest hc => simp_all [characterTail]
  | case4 c rest hne hc => simp_all [characterTail]
  | case5 c rest hne hc =>
    simp only [characterTail, hc, if_false, Option.some.injEq, Prod.mk.injEq] at h
    obtain ⟨rfl, rfl⟩ := h
    simp [characterTail, hc]
  | case6 cs h1 h2 => simp_all [characterTail]

theorem characterTail_escape_eq_none {c : Char} {rest : List Char} :
    characterTail ('\\' :: c :: rest) = none ↔
      (c.utf8Size = 1 →
        (rest.dropWhile fun x ↦ x != '\'' && x != '\n').head? ≠ some '\'') := by
  rw [characterTail]
  split
  · next hc =>
    cases hrest : rest.dropWhile fun x ↦ x != '\'' && x != '\n' with
    | nil => simp
    | cons d after =>
      by_cases hd : d = '\''
      · simp [hd, hc]
      · simp [hd]
  · next hc => simp [hc]

theorem characterTail_cons_eq_none {c : Char} (hc : c ≠ '\\') {rest : List Char} :
    characterTail (c :: rest) = none ↔ (rest.head? = some '\'' → c = '\'' ∨ c = '\n') := by
  cases rest with
  | nil => simp [characterTail]
  | cons d rest =>
    by_cases hd : d = '\''
    · simp only [characterTail, hc, hd, false_or, List.head?_cons, forall_const]
      split <;> simp_all
    · simp [characterTail, hc, hd]

/-- A character literal that is not closed is not closed when the text is broken off. -/
theorem characterTail_eq_none_of_breaksOff {u v : List Char} (hb : BreaksOff u v)
    (h : characterTail u = none) : characterTail v = none := by
  cases hb with
  | @last c hc u v hv =>
    apply (characterTail_cons_eq_none hc).2
    intro hhead
    cases hv '\'' hhead
  | @cons c u v hb =>
    by_cases hc : c = '\\'
    · subst hc
      cases hb with
      | @last d hd u v hv =>
        apply characterTail_escape_eq_none.2
        intro _
        cases v with
        | nil => simp
        | cons x v =>
          obtain rfl := hv x rfl
          simp
      | @cons d u v hb =>
        rw [characterTail_escape_eq_none] at h ⊢
        intro hd
        exact head?_dropWhile_of_breaksOff (by decide) hb (h hd)
    · rw [characterTail_cons_eq_none hc] at h ⊢
      rwa [hb.head?]

/-! ## Action blocks -/

/-- A piece is cut off whole when the text after it is broken off. -/
theorem piece?_append {cs u v : List Char} {p : Piece} (h : piece? cs = some (p, u))
    (hb : BreaksOff u v) : piece? (p.text ++ v) = some (p, v) := by
  revert h
  fun_cases piece? cs <;> intro h
  case case11 body =>
    obtain ⟨cut, hcut, heq⟩ := Option.map_eq_some_iff.1 h
    obtain ⟨rfl, rfl⟩ := Prod.mk.inj heq
    have happ := cutAtPair_append (by decide) (not_infix_of_cutAtPair hcut) v
    simp [Piece.text, piece?, happ]
  all_goals simp only [Option.some.injEq, Prod.mk.injEq, reduceCtorEq] at h
  all_goals obtain ⟨rfl, rfl⟩ := h
  case case6 htail => simp [Piece.text, piece?, stringTail_append htail]
  case case7 htail => simp [Piece.text, piece?, stringTail_eq_none_of_breaksOff hb htail]
  case case8 htail => simp [Piece.text, piece?, characterTail_append htail]
  case case9 htail => simp [Piece.text, piece?, characterTail_eq_none_of_breaksOff hb htail]
  case case10 rest =>
    obtain ⟨htake, hdrop⟩ := span_of_breaksOff hb
    simp [Piece.text, piece?, htake, hdrop]
  case case12 c rest hopen hclose hend hescape hstring hcharacter hline hblock =>
    -- Whether a slash opens a comment is decided by the first character after it.
    obtain ⟨d, u, rfl⟩ := List.exists_cons_of_ne_nil hb.left_ne_nil
    obtain ⟨v, rfl⟩ := List.head?_eq_some_iff.1 hb.head?
    have hne : c ≠ '\\' := fun hc ↦ hescape d u hc rfl
    rw [Piece.text, List.singleton_append, piece?] <;> simp_all
  all_goals rfl

theorem closeBlock_of_piece? {cs rest : List Char} {p : Piece} (h : piece? cs = some (p, rest))
    (depth : Nat) :
    closeBlock depth cs =
      match p, depth with
      | .closeBrace, 0 => some (['}'], rest)
      | .closeBrace, outer + 1 => (closeBlock outer rest).map fun cut ↦ ('}' :: cut.1, cut.2)
      | .openBrace, depth => (closeBlock (depth + 1) rest).map fun cut ↦ ('{' :: cut.1, cut.2)
      | p, depth => (closeBlock depth rest).map fun cut ↦ (p.text ++ cut.1, cut.2) := by
  rw [closeBlock]
  split
  · simp_all
  · next hp =>
    obtain ⟨rfl, rfl⟩ := Prod.mk.inj (Option.some.inj (h.symm.trans hp))
    cases depth <;> rfl
  · next hp =>
    obtain ⟨rfl, rfl⟩ := Prod.mk.inj (Option.some.inj (h.symm.trans hp))
    rfl
  · next hclose hopen hp =>
    obtain ⟨rfl, rfl⟩ := Prod.mk.inj (Option.some.inj (h.symm.trans hp))
    cases p <;> simp_all

theorem breaksOff_of_closeBlock {depth : Nat} {cs code u v : List Char}
    (h : closeBlock depth cs = some (code, u)) (hb : BreaksOff ('}' :: u) ('}' :: v)) :
    BreaksOff cs (code ++ v) := by
  obtain ⟨body, rfl⟩ := Segment.exists_append_of_closeBlock h
  rw [← append_of_closeBlock h, List.append_assoc, List.append_assoc]
  exact hb.append body

/-- A block that is closed is cut off at the same brace when the text after it is broken off. -/
theorem closeBlock_append {depth : Nat} {cs code u v : List Char}
    (h : closeBlock depth cs = some (code, u)) (hb : BreaksOff ('}' :: u) ('}' :: v)) :
    closeBlock depth (code ++ v) = some (code, v) := by
  fun_induction closeBlock depth cs generalizing code with
  | case1 => simp at h
  | case2 cs rest hp =>
    obtain ⟨rfl, -⟩ := Prod.mk.inj (Option.some.inj h)
    have hpiece : piece? ('}' :: v) = some (.closeBrace, v) := rfl
    exact closeBlock_of_piece? hpiece 0
  | case3 cs rest hp outer ih =>
    obtain ⟨cut, hcut, heq⟩ := Option.map_eq_some_iff.1 h
    obtain ⟨rfl, rfl⟩ := Prod.mk.inj heq
    have hpiece := piece?_append hp (breaksOff_of_closeBlock hcut hb)
    have hclose := closeBlock_of_piece? hpiece (outer + 1)
    simp only [ih hcut] at hclose
    exact hclose
  | case4 depth cs rest hp ih =>
    obtain ⟨cut, hcut, heq⟩ := Option.map_eq_some_iff.1 h
    obtain ⟨rfl, rfl⟩ := Prod.mk.inj heq
    have hpiece := piece?_append hp (breaksOff_of_closeBlock hcut hb)
    have hclose := closeBlock_of_piece? hpiece depth
    simp only [ih hcut] at hclose
    exact hclose
  | case5 depth cs p rest hclosing hopening hp ih =>
    obtain ⟨cut, hcut, heq⟩ := Option.map_eq_some_iff.1 h
    obtain ⟨rfl, rfl⟩ := Prod.mk.inj heq
    have hpiece := piece?_append hp (breaksOff_of_closeBlock hcut hb)
    have hclose := closeBlock_of_piece? hpiece depth
    rw [List.append_assoc, hclose]
    cases p <;> simp_all

/-! ## Keywords -/

theorem keyword?_text_append (k : Keyword) (v : List Char) :
    keyword? (k.text.toList ++ v) = some (k, v) := by
  cases k <;> rfl

theorem keyword?_eq_none_iff {cs : List Char} :
    keyword? cs = none ↔ ∀ k : Keyword, ¬ k.text.toList <+: cs := by
  have hall (k : Keyword) : k ∈ Keyword.all := by cases k <;> decide
  simp [keyword?, List.findSome?_eq_none_iff, hall, List.isPrefixOf_iff_prefix]

theorem feed_not_mem_text (k : Keyword) : '\n' ∉ k.text.toList := by
  cases k <;> decide

/-! ## Segments -/

namespace Segment

/-- The segment takes up a bounded part of the text: it is no failure, and no divider that takes all
of the text. -/
def Bounded : Segment → Prop
  | .failure _ _ | .token (.divider (some _)) => False
  | _ => True

variable {closing : Bool} {seg : Segment} {rest s u v : List Char}

theorem percent_of_head? (hliteral : rest.head? ≠ some '{') (hdivider : rest.head? ≠ some '%') :
    percent closing rest =
      match keyword? ('%' :: rest) with
      | some (k, after) => (.token (.keyword k), after)
      | none => (.illegal '%', rest) := by
  apply percent.eq_3
  · rintro rest rfl
    exact hliteral rfl
  · rintro rest rfl
    exact hdivider rfl

/-- A keyword is cut off in front of every text. -/
theorem percent_keyword {k : Keyword} (hs : k.text.toList = '%' :: s) (v : List Char) :
    percent closing (s ++ v) = (.token (.keyword k), v) := by
  have hkeyword := keyword?_text_append k v
  obtain ⟨c, t, ht, hliteral, hdivider⟩ :
      ∃ c t, k.text.toList = '%' :: c :: t ∧ c ≠ '{' ∧ c ≠ '%' := by
    cases k <;> exact ⟨_, _, rfl, by decide, by decide⟩
  obtain rfl : c :: t = s := (List.cons.inj (ht.symm.trans hs)).2
  rw [hs, List.cons_append] at hkeyword
  rw [percent_of_head? (by simpa using hliteral) (by simpa using hdivider), hkeyword]

theorem percent_append (h : percent closing rest = (seg, u)) (hseg : seg.Bounded)
    (htext : seg.text = '%' :: s) (hb : BreaksOff u v) : percent closing (s ++ v) = (seg, v) := by
  revert h
  fun_cases percent closing rest <;> intro h <;> obtain ⟨rfl, rfl⟩ := Prod.mk.inj h
  case case1 rest body after hcut =>
    have happ := cutAtPair_append (by decide) (not_infix_of_cutAtPair hcut) v
    obtain rfl : '{' :: body ++ ['%', '}'] = s := by simpa [text, Token.text] using htext
    simp [percent, happ]
  case case2 => exact hseg.elim
  case case3 => exact hseg.elim
  case case4 rest hclosing =>
    obtain rfl : ['%'] = s := by simpa [text, Token.text] using htext
    simp [percent, hclosing]
  case case5 k after hliteral hdivider hk => exact percent_keyword htext v
  case case6 hliteral hdivider hk =>
    obtain rfl : [] = s := by simpa [text] using htext
    have hnone : keyword? ('%' :: v) = none := by
      rw [keyword?_eq_none_iff] at hk ⊢
      intro k hprefix
      exact hk k ((BreaksOff.cons '%' hb).isPrefix (feed_not_mem_text k) hprefix)
    have hhead (c : Char) (hc : ∀ t, rest ≠ c :: t) : v.head? ≠ some c := by
      rw [hb.head?]
      intro hrest
      obtain ⟨t, ht⟩ := List.head?_eq_some_iff.1 hrest
      exact hc t ht
    rw [List.nil_append, percent_of_head? (hhead '{' hliteral) (hhead '%' hdivider), hnone]

theorem slash_append (h : slash rest = (seg, u)) (hseg : seg.Bounded)
    (htext : seg.text = '/' :: s) (hb : BreaksOff u v) : slash (s ++ v) = (seg, v) := by
  revert h
  fun_cases slash rest <;> intro h <;> obtain ⟨rfl, rfl⟩ := Prod.mk.inj h
  case case1 rest =>
    obtain rfl : '/' :: rest.takeWhile (· != '\n') = s := by simpa [text] using htext
    obtain ⟨htake, hdrop⟩ := span_of_breaksOff hb
    simp [slash, htake, hdrop]
  case case2 rest body after hcut =>
    have happ := cutAtPair_append (by decide) (not_infix_of_cutAtPair hcut) v
    obtain rfl : '*' :: body ++ ['*', '/'] = s := by simpa [text] using htext
    simp [slash, happ]
  case case3 => exact hseg.elim
  case case4 hline hblock =>
    obtain rfl : [] = s := by simpa [text] using htext
    obtain ⟨d, rest, rfl⟩ := List.exists_cons_of_ne_nil hb.left_ne_nil
    obtain ⟨v, rfl⟩ := List.head?_eq_some_iff.1 hb.head?
    rw [List.nil_append, slash] <;> simp_all

/-- A quoted literal is cut off in front of every text. -/
theorem quotation_closed {mark : Char} {body : List Char} (hbody : ∀ c ∈ body, c ≠ mark ∧ c ≠ '\n')
    (v : List Char) :
    quotation mark (body ++ mark :: v) =
      (.token (.quoted (String.ofList (mark :: body ++ [mark]))), v) := by
  have hall : ∀ x ∈ body, (x != mark && x != '\n') = true := by
    intro x hx
    simpa using hbody x hx
  have hstop : ∀ x ∈ (mark :: v).head?, (x != mark && x != '\n') = false := by simp
  obtain ⟨htake, hdrop⟩ := span_append hall hstop
  simp [quotation, htake, hdrop]

theorem quotation_open {mark : Char}
    (h : (rest.dropWhile fun c ↦ c != mark && c != '\n').head? ≠ some mark) :
    quotation mark rest = (.illegal mark, rest) := by
  unfold quotation
  split
  · next c after hdrop =>
    have hc : c ≠ mark := by simpa [hdrop] using h
    rw [if_neg hc]
  · rfl

theorem quotation_append {mark : Char} (hmark : mark ≠ '\n') (h : quotation mark rest = (seg, u))
    (htext : seg.text = mark :: s) (hb : BreaksOff u v) :
    quotation mark (s ++ v) = (seg, v) := by
  by_cases hopen : (rest.dropWhile fun c ↦ c != mark && c != '\n').head? = some mark
  · obtain ⟨after, hdrop⟩ := List.head?_eq_some_iff.1 hopen
    have hrest := List.takeWhile_append_dropWhile (p := fun c ↦ c != mark && c != '\n') (l := rest)
    have hbody : ∀ c ∈ rest.takeWhile fun c ↦ c != mark && c != '\n', c ≠ mark ∧ c ≠ '\n' := by
      intro c hc
      simpa using List.all_eq_true.1 List.all_takeWhile c hc
    rw [hdrop] at hrest
    rw [← hrest, quotation_closed hbody] at h
    obtain ⟨rfl, rfl⟩ := Prod.mk.inj h
    obtain rfl : (rest.takeWhile fun c ↦ c != mark && c != '\n') ++ [mark] = s := by
      simpa [text, Token.text] using htext
    rw [List.append_assoc]
    exact quotation_closed hbody v
  · rw [quotation_open hopen] at h
    obtain ⟨rfl, rfl⟩ := Prod.mk.inj h
    obtain rfl : [] = s := by simpa [text] using htext
    exact quotation_open (head?_dropWhile_of_breaksOff hmark hb hopen)

theorem brace_append (h : brace rest = (seg, u)) (hseg : seg.Bounded)
    (htext : seg.text = '{' :: s) (hb : BreaksOff u v) : brace (s ++ v) = (seg, v) := by
  revert h
  fun_cases brace rest <;> intro h <;> obtain ⟨rfl, rfl⟩ := Prod.mk.inj h
  case case1 code after hclose =>
    obtain rfl : code = s := by simpa [text, Token.text] using htext
    simp [brace, closeBlock_append hclose (.cons '}' hb)]
  case case2 => exact hseg.elim

/-! ### The first segment by its first character -/

theorem first_percent (closing : Bool) (rest : List Char) :
    first closing '%' rest = percent closing rest := rfl

theorem first_quote {mark : Char} (hmark : mark = '\'' ∨ mark = '"') (closing : Bool)
    (rest : List Char) : first closing mark rest = quotation mark rest := by
  obtain rfl | rfl := hmark
  · rfl
  · rfl

theorem first_brace (closing : Bool) (rest : List Char) : first closing '{' rest = brace rest := rfl

theorem first_punctuation (closing : Bool) (p : Punctuation) (rest : List Char) :
    first closing p.char rest = (.token (.punctuation p), rest) := by
  cases p <;> rfl

/-- A bounded segment is cut off whole when the text after it is broken off. -/
theorem first_append {c : Char} (h : first closing c rest = (seg, u)) (hseg : seg.Bounded)
    (htext : seg.text = c :: s) (hb : BreaksOff u v) : first closing c (s ++ v) = (seg, v) := by
  revert h
  fun_cases first closing c rest <;> intro h
  case case4 hc =>
    subst hc
    exact percent_append h hseg htext hb
  case case5 hc =>
    subst hc
    exact slash_append h hseg htext hb
  case case6 hc =>
    rw [first_quote hc]
    have hfeed : c ≠ '\n' := by
      rintro rfl
      simp at hc
    exact quotation_append hfeed h htext hb
  case case7 hc =>
    subst hc
    exact brace_append h hseg htext hb
  all_goals obtain ⟨rfl, rfl⟩ := Prod.mk.inj h
  case case1 hblank =>
    obtain ⟨htake, hdrop⟩ := span_of_breaksOff hb
    obtain rfl : rest.takeWhile isSeparator = s := by simpa [text] using htext
    simp [first, hblank, htake, hdrop]
  case case2 hblank hname =>
    obtain ⟨htake, hdrop⟩ := span_of_breaksOff hb
    obtain rfl : rest.takeWhile isNameChar = s := by simpa [text, Token.text] using htext
    simp [first, hblank, hname, htake, hdrop]
  case case3 hblank hname hdigit =>
    obtain ⟨htake, hdrop⟩ := span_of_breaksOff hb
    obtain rfl : rest.takeWhile Char.isDigit = s := by simpa [text, Token.text] using htext
    simp [first, hblank, hname, hdigit, htake, hdrop]
  case case8 p hp =>
    obtain rfl := Punctuation.char_of_ofChar? hp
    obtain rfl : [] = s := by simpa [text, Token.text] using htext
    exact first_punctuation closing p v
  case case9 hblank hname hdigit hpercent hslash hquote hbrace hp =>
    obtain rfl : [] = s := by simpa [text] using htext
    simp only [List.nil_append, first, if_neg hblank, if_neg hname, if_neg hdigit, if_neg hpercent,
      if_neg hslash, if_neg hquote, if_neg hbrace, hp]

theorem exists_text_first (closing : Bool) (c : Char) (rest : List Char) :
    ∃ s, (first closing c rest).1.text = c :: s := by
  obtain ⟨d, s, htext⟩ := List.exists_cons_of_ne_nil (text_first_ne_nil closing c rest)
  have happ := text_append_first closing c rest
  rw [htext, List.cons_append] at happ
  exact ⟨s, by rw [htext, (List.cons.inj happ).1]⟩

theorem bounded_of_item? {pos : Position} (h : seg.item? pos = none) : seg.Bounded := by
  cases seg <;> simp_all [item?, Bounded]

theorem eq_token_of_item? {pos : Position} {lx : Lexeme}
    (h : seg.item? pos = some (.lexeme lx)) : seg = .token lx.token ∧ lx.pos = pos := by
  cases seg with
  | token t =>
    obtain rfl : lx = ⟨t, pos⟩ := by simpa [item?] using h.symm
    exact ⟨rfl, rfl⟩
  | _ => simp [item?] at h

end Segment

/-! ## Pulls -/

section Pull

variable {closing : Bool} {c : Char} {rest after : List Char} (pos : Position)

theorem pullFrom_token {t : Token} (h : Segment.first closing c rest = (.token t, after)) :
    pullFrom closing (c :: rest) pos =
      ⟨[], some (.lexeme ⟨t, pos⟩), ⟨after, pos.advance t.text.toList⟩⟩ := by
  rw [pullFrom]
  simp only [h]
  rfl

/-- A pull goes on after a segment that gives rise to no item. -/
theorem pullFrom_skip {seg : Segment} (h : Segment.first closing c rest = (seg, after))
    (hitem : seg.item? pos = none) :
    pullFrom closing (c :: rest) pos =
      { pullFrom closing after (pos.advance seg.text) with
        faults := seg.faults pos ++ (pullFrom closing after (pos.advance seg.text)).faults } := by
  rw [pullFrom]
  simp only [h, hitem]

/-- What a pull passes over in front of a token can be told from the token alone: a text that is
broken off within the token is passed over in the same way. -/
theorem exists_gap {cs : List Char} {pos : Position} {lx : Lexeme}
    (h : (pullFrom closing cs pos).item? = some (.lexeme lx)) :
    ∃ gap c rest, cs = gap ++ c :: rest ∧ lx.pos = pos.advance gap ∧
      Segment.first closing c rest = (.token lx.token, (pullFrom closing cs pos).cursor.rest) ∧
      (pullFrom closing cs pos).cursor.pos = lx.pos.advance lx.token.text.toList ∧
      ∀ v, BreaksOff (c :: rest) v →
        pullFrom closing (gap ++ v) pos =
          { pullFrom closing v lx.pos with
            faults := (pullFrom closing cs pos).faults ++ (pullFrom closing v lx.pos).faults } := by
  fun_induction pullFrom closing cs pos with
  | case1 pos => cases h
  | case2 pos c cs seg after item hitem =>
    obtain rfl := Option.some.inj h
    obtain ⟨hseg, rfl⟩ := Segment.eq_token_of_item? hitem
    refine ⟨[], c, cs, rfl, rfl, ?_, ?_, ?_⟩
    · rw [← hseg]
    · rw [hseg]
      rfl
    · intro v _
      simp
  | case3 pos c cs seg after hitem later ih =>
    obtain ⟨gap, d, rest, hafter, hpos, hfirst, hcursor, hgap⟩ := ih h
    obtain ⟨s, htext⟩ := Segment.exists_text_first closing c cs
    refine ⟨seg.text ++ gap, d, rest, ?_, ?_, hfirst, hcursor, ?_⟩
    · rw [List.append_assoc, ← hafter]
      exact (Segment.text_append_first closing c cs).symm
    · rw [hpos, Position.advance_append]
    · intro v hv
      have hbroken : BreaksOff after (gap ++ v) := hafter ▸ hv.append gap
      have hcut : Segment.first closing c cs = (seg, after) := rfl
      have hskip := Segment.first_append hcut (Segment.bounded_of_item? hitem) htext hbroken
      rw [htext, List.append_assoc, List.cons_append, pullFrom_skip pos hskip hitem, hgap v hv]
      simp [later]

end Pull

theorem pulls_of_rest_eq_nil {cur : Cursor} (h : cur.rest = []) (schedule : List Item → Bool)
    (n : Nat) (seen : List Item) :
    itemsOf (pulls schedule n seen cur) = [] ∧ faultsOf (pulls schedule n seen cur) = [] := by
  cases n with
  | zero => exact ⟨rfl, rfl⟩
  | succ n => simp [pulls, Cursor.pull, h, pullFrom, itemsOf, faultsOf]

end ParserGenerator.Lexer
