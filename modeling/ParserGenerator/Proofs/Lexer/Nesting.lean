import ParserGenerator.Proofs.Lexer.Code
import ParserGenerator.Proofs.Lexer.Lookahead

/-!
# Blocks end at the matching brace

The lexer cuts action code into pieces by characters and counts braces. Its pieces are the fragments
that the bytes of the code are cut into: an escape takes one byte, and the other bytes of its
character are fragments of their own. So the block ends at the brace at which the fragments are
closed, and where they are not closed there is no block.
-/

namespace ParserGenerator.Lexer.Code

open Text

/-! ## Strings and character literals -/

section Tails

variable {cs tail after : List Char} {bs bytes rest : List UInt8}

/-- The byte ends neither a string nor its line and starts no escape. -/
def IsInner (b : UInt8) : Prop := b ≠ '"'.toUInt8 ∧ b ≠ '\\'.toUInt8 ∧ b ≠ '\n'.toUInt8

theorem isInner_of_le {b : UInt8} (h : 128 ≤ b.toNat) : IsInner b :=
  ⟨ne_toUInt8_of_le h (by decide), ne_toUInt8_of_le h (by decide), ne_toUInt8_of_le h (by decide)⟩

theorem isInner_of_mem {c : Char} (hquote : c ≠ '"') (hescape : c ≠ '\\') (hfeed : c ≠ '\n')
    {b : UInt8} (hb : b ∈ String.utf8EncodeChar c) : IsInner b := by
  refine ⟨?_, ?_, ?_⟩ <;> rintro rfl
  · exact hquote ((toUInt8_mem_utf8EncodeChar (by decide)).1 hb)
  · exact hescape ((toUInt8_mem_utf8EncodeChar (by decide)).1 hb)
  · exact hfeed ((toUInt8_mem_utf8EncodeChar (by decide)).1 hb)

theorem StringTail.append (h : StringTail bs) (hbytes : ∀ b ∈ bytes, IsInner b) :
    StringTail (bytes ++ bs) := by
  induction bytes with
  | nil => exact h
  | cons b bytes ih =>
    rw [List.forall_mem_cons] at hbytes
    obtain ⟨hquote, hescape, hfeed⟩ := hbytes.1
    exact .byte hquote hescape hfeed (ih hbytes.2)

/-- A string goes on after bytes inside of it. -/
theorem StringTail.of_append (h : StringTail bs) {later : List UInt8}
    (heq : bs ++ rest = bytes ++ later) (hbytes : ∀ b ∈ bytes, IsInner b) :
    ∃ bs', StringTail bs' ∧ bs' ++ rest = later := by
  induction bytes generalizing bs with
  | nil => exact ⟨bs, h, heq⟩
  | cons b bytes ih =>
    rw [List.forall_mem_cons] at hbytes
    obtain ⟨hquote, hescape, -⟩ := hbytes.1
    cases h with
    | quote => exact absurd (List.cons.inj heq).1.symm hquote
    | escape => exact absurd (List.cons.inj heq).1.symm hescape
    | byte _ _ _ h => exact ih h (List.cons.inj heq).2 hbytes.2

theorem stringTail_encode (h : stringTail cs = some (tail, after)) : StringTail (encode tail) := by
  fun_induction stringTail cs generalizing tail after with
  | case1 => cases h
  | case2 rest =>
    obtain ⟨rfl, -⟩ := Prod.mk.inj (Option.some.inj h)
    exact .quote
  | case3 => cases h
  | case4 c rest ih =>
    obtain ⟨cut, hcut, heq⟩ := Option.map_eq_some_iff.1 h
    obtain ⟨rfl, -⟩ := Prod.mk.inj heq
    obtain ⟨b, bytes, hc, hbytes⟩ := exists_utf8EncodeChar c
    have hinner : StringTail (bytes ++ encode cut.1) :=
      (ih hcut).append fun x hx ↦ isInner_of_le (hbytes x hx)
    rw [encode_cons, encode_cons, hc]
    exact .escape b hinner
  | case5 c rest hquote hfeed hescape ih =>
    obtain ⟨cut, hcut, heq⟩ := Option.map_eq_some_iff.1 h
    obtain ⟨rfl, -⟩ := Prod.mk.inj heq
    have hne : c ≠ '\\' := by
      rintro rfl
      cases rest with
      | nil => simp [stringTail] at hcut
      | cons d rest => exact hescape d rest rfl rfl
    exact (ih hcut).append fun x hx ↦ isInner_of_mem hquote hne hfeed hx

/-- Where a string can be read off the bytes, it is found. -/
theorem isSome_stringTail (h : StringTail bs) (heq : bs ++ rest = encode cs) :
    (stringTail cs).isSome := by
  fun_induction stringTail cs generalizing bs with
  | case1 => cases h <;> cases heq
  | case2 => rfl
  | case3 =>
    cases h with
    | quote => exact absurd (List.cons.inj heq).1 (by decide)
    | escape => exact absurd (List.cons.inj heq).1 (by decide)
    | byte _ _ hfeed => exact absurd (List.cons.inj heq).1 hfeed
  | case4 c later ih =>
    cases h with
    | quote => exact absurd (List.cons.inj heq).1 (by decide)
    | @escape b bs h =>
      obtain ⟨b', bytes, hc, hbytes⟩ := exists_utf8EncodeChar c
      have htail : b :: (bs ++ rest) = String.utf8EncodeChar c ++ encode later :=
        (List.cons.inj heq).2
      rw [hc] at htail
      obtain ⟨bs', h', heq'⟩ := h.of_append (List.cons.inj htail).2
        fun x hx ↦ isInner_of_le (hbytes x hx)
      rw [Option.isSome_map]
      exact ih h' heq'
    | byte _ hescape => exact absurd (List.cons.inj heq).1 hescape
  | case5 c later hquote hfeed hescape ih =>
    by_cases hne : c = '\\'
    · subst hne
      cases later with
      | nil =>
        cases h with
        | quote => exact absurd (List.cons.inj heq).1 (by decide)
        | escape => exact absurd (List.cons.inj heq).2 (List.cons_ne_nil _ _)
        | byte _ hescape => exact absurd (List.cons.inj heq).1 hescape
      | cons d later => exact absurd rfl (hescape d later rfl)
    · obtain ⟨bs', h', heq'⟩ := h.of_append heq
        fun x hx ↦ isInner_of_mem hquote hne hfeed hx
      rw [Option.isSome_map]
      exact ih h' heq'

/-- A character literal that is found can be read off its bytes. -/
theorem characterTail_encode (h : characterTail cs = some (tail, after)) :
    CharacterTail (encode tail) := by
  have hquote : String.utf8EncodeChar '\'' = ['\''.toUInt8] := rfl
  have hbackslash : String.utf8EncodeChar '\\' = ['\\'.toUInt8] := rfl
  fun_cases characterTail cs with
  | case1 c rest hc after' hrest =>
    simp only [characterTail, hc, if_true, hrest, Option.some.injEq, Prod.mk.injEq] at h
    obtain ⟨rfl, rfl⟩ := h
    have hbody : ∀ x ∈ rest.takeWhile fun x ↦ x != '\'' && x != '\n', x ≠ '\'' ∧ x ≠ '\n' := by
      intro x hx
      simpa using List.all_eq_true.1 List.all_takeWhile x hx
    have hascii : IsAscii c := utf8Size_eq_one_iff.1 hc
    have hlit : CharacterTail ('\\'.toUInt8 :: c.toUInt8 ::
        encode (rest.takeWhile fun x ↦ x != '\'' && x != '\n') ++ ['\''.toUInt8]) := by
      apply CharacterTail.escape
      · rw [toNat_toUInt8 hascii]
        exact hascii
      · rw [toUInt8_mem_encode (by decide)]
        exact fun hmem ↦ (hbody _ hmem).1 rfl
      · rw [toUInt8_mem_encode (by decide)]
        exact fun hmem ↦ (hbody _ hmem).2 rfl
    simpa [utf8EncodeChar_of_isAscii hascii, hbackslash, hquote] using hlit
  | case5 c rest hne hc =>
    simp only [characterTail, hc, if_false, Option.some.injEq, Prod.mk.injEq] at h
    obtain ⟨rfl, rfl⟩ := h
    simp only [not_or] at hc
    exact .single hc.2.1 hc.1 hc.2.2
  | _ => simp_all [characterTail]

/-- Where a character literal can be read off the bytes, it is found. -/
theorem isSome_characterTail (h : CharacterTail bs) (heq : bs ++ rest = encode cs) :
    (characterTail cs).isSome := by
  cases h with
  | @single c hquote hescape hfeed =>
    rw [List.append_assoc] at heq
    obtain ⟨later, rfl, hlater⟩ := encode_eq_utf8EncodeChar_append.1 heq.symm
    obtain ⟨later, rfl, -⟩ := (encode_eq_cons (by decide)).1 hlater
    simp [characterTail, hquote, hescape, hfeed]
  | @escape b hb bs hquote hfeed =>
    obtain ⟨later, rfl, hlater⟩ := (encode_eq_cons (by decide)).1 heq.symm
    cases later with
    | nil => cases hlater
    | cons c later =>
      obtain ⟨b', high, hc, -⟩ := exists_utf8EncodeChar c
      rw [encode_cons, hc] at hlater
      have hascii : IsAscii c := by
        apply isAscii_of_mem hb
        rw [hc, (List.cons.inj hlater).1]
        exact List.mem_cons_self
      rw [utf8EncodeChar_of_isAscii hascii] at hc
      rw [← (List.cons.inj hc).2] at hlater
      have hbytes : encode later = bs ++ '\''.toUInt8 :: rest := by
        simpa using (List.cons.inj hlater).2
      obtain ⟨body, after, rfl, rfl⟩ := exists_of_encode_eq (by decide) hquote hbytes
      rw [toUInt8_mem_encode (by decide)] at hquote hfeed
      have hbody : ∀ x ∈ body, (x != '\'' && x != '\n') = true := by
        intro x hx
        simpa using ⟨fun h ↦ hquote (h ▸ hx), fun h ↦ hfeed (h ▸ hx)⟩
      have hstop : ∀ x ∈ ('\'' :: after).head?, (x != '\'' && x != '\n') = false := by simp
      obtain ⟨-, hdrop⟩ := span_append hbody hstop
      simp only [characterTail, utf8Size_eq_one_iff.2 hascii, if_true, hdrop]
      rfl

end Tails

/-! ## Pieces -/

/-- Every byte as a fragment of its own. -/
def bytewise (bs : List UInt8) : List Fragment := bs.map fun b ↦ .plain [b]

/-- The fragments of a piece. -/
def fragmentsOf : Piece → List Fragment
  | .openBrace => [.opening]
  | .closeBrace => [.closing]
  | .escape c =>
    .plain ('\\'.toUInt8 :: (String.utf8EncodeChar c).take 1) ::
      bytewise ((String.utf8EncodeChar c).drop 1)
  | .other c => bytewise (String.utf8EncodeChar c)
  | p => [.plain (encode p.text)]

theorem extent_bytewise (bs : List UInt8) : extent (bytewise bs) = bs := by
  simp [extent, bytewise, Fragment.bytes, List.flatMap_map]

theorem balanced_bytewise (bs : List UInt8) : Balanced (bytewise bs) := by
  induction bs with
  | nil => exact .nil
  | cons b bs ih => exact ih.plain [b]

theorem extent_fragmentsOf (p : Piece) : extent (fragmentsOf p) = encode p.text := by
  cases p with
  | other c =>
    rw [fragmentsOf, extent_bytewise]
    simp [Piece.text]
  | escape c =>
    obtain ⟨b, bs, hc, -⟩ := exists_utf8EncodeChar c
    have hbackslash : String.utf8EncodeChar '\\' = ['\\'.toUInt8] := rfl
    have htail : (bytewise bs).flatMap Fragment.bytes = bs := extent_bytewise bs
    simp [fragmentsOf, extent, Fragment.bytes, Piece.text, hc, htail, hbackslash]
  | _ => simp [fragmentsOf, extent, Fragment.bytes, Piece.text] <;> rfl

theorem balanced_fragmentsOf {p : Piece} (hopen : p ≠ .openBrace) (hclose : p ≠ .closeBrace) :
    Balanced (fragmentsOf p) := by
  cases p with
  | openBrace => exact absurd rfl hopen
  | closeBrace => exact absurd rfl hclose
  | escape c => exact (balanced_bytewise _).plain _
  | other c => exact balanced_bytewise _
  | _ => exact .plain _ .nil

section Cut

variable {cs after : List Char} {bs rest : List UInt8}

/-- A byte that starts no phrase and does not stop the cut is a fragment. -/
theorem cuts_byte {b : UInt8} (hopen : b ≠ '{'.toUInt8) (hclose : b ≠ '}'.toUInt8)
    (hescape : b ≠ '\\'.toUInt8)
    (hstring : b = '"'.toUInt8 → ∀ tail later, StringTail tail → tail ++ later ≠ rest)
    (hcharacter : b = '\''.toUInt8 → ∀ tail later, CharacterTail tail → tail ++ later ≠ rest)
    (hcomment : b = '/'.toUInt8 →
      rest.head? ≠ some '/'.toUInt8 ∧ rest.head? ≠ some '*'.toUInt8) :
    Cuts (b :: rest) (.plain [b]) rest := by
  apply Cuts.byte hopen hclose
  · intro bytes later heq hphrase
    cases hphrase with
    | escape => exact hescape (List.cons.inj heq).1.symm
    | string h => exact hstring (List.cons.inj heq).1.symm _ _ h (List.cons.inj heq).2
    | character h => exact hcharacter (List.cons.inj heq).1.symm _ _ h (List.cons.inj heq).2
    | lineComment =>
      apply (hcomment (List.cons.inj heq).1.symm).1
      rw [← (List.cons.inj heq).2]
      rfl
    | blockComment =>
      apply (hcomment (List.cons.inj heq).1.symm).2
      rw [← (List.cons.inj heq).2]
      rfl
  · intro hstops
    generalize hbs : b :: rest = bs at hstops
    cases hstops with
    | nil => cases hbs
    | escape => exact hescape (List.cons.inj hbs).1
    | comment =>
      apply (hcomment (List.cons.inj hbs).1).2
      rw [(List.cons.inj hbs).2]
      rfl

/-- The bytes of characters that take several bytes are fragments. -/
theorem cutsAll_bytewise (h : ∀ b ∈ bs, 128 ≤ b.toNat) (rest : List UInt8) :
    CutsAll (bs ++ rest) (bytewise bs) rest := by
  induction bs with
  | nil => exact .nil rest
  | cons b bs ih =>
    rw [List.forall_mem_cons] at h
    have hne {c : Char} (hc : IsAscii c) : b ≠ c.toUInt8 := ne_toUInt8_of_le h.1 hc
    apply CutsAll.cons _ (ih h.2)
    exact cuts_byte (hne (by decide)) (hne (by decide)) (hne (by decide))
      (fun hb ↦ absurd hb (hne (by decide))) (fun hb ↦ absurd hb (hne (by decide)))
      fun hb ↦ absurd hb (hne (by decide))

/-- A character that starts no phrase is cut into its bytes. -/
theorem cutsAll_other {c : Char} (hopen : c ≠ '{') (hclose : c ≠ '}') (hescape : c ≠ '\\')
    (hstring : c = '"' → stringTail cs = none) (hcharacter : c = '\'' → characterTail cs = none)
    (hcomment : c = '/' → cs.head? ≠ some '/' ∧ cs.head? ≠ some '*') :
    CutsAll (encode (c :: cs)) (bytewise (String.utf8EncodeChar c)) (encode cs) := by
  by_cases hc : IsAscii c
  · have heq {d : Char} (hd : IsAscii d) : c.toUInt8 = d.toUInt8 ↔ c = d := toUInt8_inj hc hd
    rw [encode_cons, utf8EncodeChar_of_isAscii hc, List.singleton_append]
    apply CutsAll.cons _ (.nil (encode cs))
    apply cuts_byte
    · rwa [Ne, heq (by decide)]
    · rwa [Ne, heq (by decide)]
    · rwa [Ne, heq (by decide)]
    · intro hb tail later htail hcs
      have hsome := isSome_stringTail htail hcs
      rw [hstring ((heq (by decide)).1 hb)] at hsome
      cases hsome
    · intro hb tail later htail hcs
      have hsome := isSome_characterTail htail hcs
      rw [hcharacter ((heq (by decide)).1 hb)] at hsome
      cases hsome
    · intro hb
      rw [Ne, Ne, head?_encode (by decide), head?_encode (by decide)]
      exact hcomment ((heq (by decide)).1 hb)
  · exact cutsAll_bytewise (fun b hb ↦ le_of_mem_utf8EncodeChar hc hb) (encode cs)

/-- A phrase is a fragment as a whole. -/
theorem cutsAll_phrase {bytes : List UInt8} (h : Phrase bytes rest) (heq : bs = bytes ++ rest) :
    CutsAll bs [.plain bytes] rest := by
  rw [heq]
  exact .cons (.phrase h) (.nil rest)

/-- A line comment goes up to the line feed. -/
theorem phrase_lineComment (cs : List Char) :
    Phrase (encode (Piece.lineComment (cs.takeWhile (· != '\n'))).text)
      (encode (cs.dropWhile (· != '\n'))) := by
  rw [Piece.text, encode_cons_of_isAscii (by decide), encode_cons_of_isAscii (by decide)]
  apply Phrase.lineComment
  · rw [toUInt8_mem_encode (by decide)]
    exact not_mem_takeWhile '\n' cs
  · have hstop := head?_dropWhile (· != '\n') cs
    cases hdrop : cs.dropWhile (· != '\n') with
    | nil => simp
    | cons d later =>
      rw [hdrop] at hstop
      obtain rfl : d = '\n' := by simpa using hstop d rfl
      rw [encode_cons_of_isAscii (by decide)]
      simp

/-- A block comment goes up to the first end of a comment. -/
theorem phrase_blockComment {body later : List Char}
    (h : cutAtPair '*' '/' cs = some (body, later)) :
    Phrase (encode (Piece.blockComment body).text) (encode later) := by
  have hbody := not_infix_of_cutAtPair h
  rw [← infix_encode (by decide) (by decide)] at hbody
  have htext : encode (Piece.blockComment body).text =
      '/'.toUInt8 :: '*'.toUInt8 :: (encode body ++ ['*'.toUInt8, '/'.toUInt8]) := by
    rw [Piece.text, encode_append, encode_cons_of_isAscii (by decide),
      encode_cons_of_isAscii (by decide)]
    rfl
  rw [htext]
  exact .blockComment hbody (encode later)

/-- An escape takes the first byte of its character. -/
theorem cutsAll_escape (c : Char) (cs : List Char) :
    CutsAll (encode ('\\' :: c :: cs)) (fragmentsOf (.escape c)) (encode cs) := by
  obtain ⟨b, bs, hc, hbs⟩ := exists_utf8EncodeChar c
  have hphrase := Phrase.escape b (bs ++ encode cs)
  rw [encode_cons_of_isAscii (by decide), encode_cons, fragmentsOf, hc]
  exact .cons (.phrase hphrase) (cutsAll_bytewise hbs (encode cs))

/-- The fragments of a piece are cut off its bytes. -/
theorem cutsAll_of_piece? {p : Piece} (h : piece? cs = some (p, after)) :
    CutsAll (encode cs) (fragmentsOf p) (encode after) := by
  have happ : encode cs = encode p.text ++ encode after := by
    rw [← append_of_piece? h, encode_append]
  revert h
  fun_cases piece? cs <;> intro h
  case case11 body =>
    obtain ⟨cut, hcut, heq⟩ := Option.map_eq_some_iff.1 h
    obtain ⟨rfl, rfl⟩ := Prod.mk.inj heq
    exact cutsAll_phrase (phrase_blockComment hcut) happ
  all_goals simp only [Option.some.injEq, Prod.mk.injEq, reduceCtorEq] at h
  all_goals obtain ⟨rfl, rfl⟩ := h
  case case2 => exact .cons (.opening _) (.nil _)
  case case3 => exact .cons (.closing _) (.nil _)
  case case5 c rest => exact cutsAll_escape c rest
  case case6 htail => exact cutsAll_phrase (.string (stringTail_encode htail) _) happ
  case case7 rest htail =>
    apply cutsAll_other
    all_goals simp [htail]
  case case8 htail => exact cutsAll_phrase (.character (characterTail_encode htail) _) happ
  case case9 rest htail =>
    apply cutsAll_other
    all_goals simp [htail]
  case case10 rest => exact cutsAll_phrase (phrase_lineComment rest) happ
  case case12 c rest hopen hclose hend hescape hstring hcharacter hline hblock =>
    have hne : c ≠ '\\' := by
      rintro rfl
      cases rest with
      | nil => exact hend rfl rfl
      | cons d rest => exact hescape d rest rfl rfl
    apply cutsAll_other hopen hclose hne (fun hc ↦ absurd hc hstring)
      (fun hc ↦ absurd hc hcharacter)
    intro hc
    constructor
    · intro hhead
      obtain ⟨later, hrest⟩ := List.head?_eq_some_iff.1 hhead
      exact hline later hc hrest
    · intro hhead
      obtain ⟨later, hrest⟩ := List.head?_eq_some_iff.1 hhead
      exact hblock later hc hrest

/-- Where there is no piece, there is no fragment. -/
theorem stops_of_piece? (h : piece? cs = none) : Stops (encode cs) := by
  revert h
  fun_cases piece? cs <;> intro h
  case case1 => exact .nil
  case case4 => exact .escape
  case case11 body =>
    have hbody := not_infix_of_cutAtPair_eq_none (Option.map_eq_none_iff.1 h)
    rw [← infix_encode (by decide) (by decide)] at hbody
    exact .comment hbody
  all_goals cases h

/-! ## Blocks -/

theorem closeBlock_of_piece?_eq_none (h : piece? cs = none) (depth : Nat) :
    closeBlock depth cs = none := by
  rw [closeBlock]
  split <;> simp_all

/-- Fragments with the bytes of a text are put in front of the fragments that are found, and the
text in front of the text that is found. -/
theorem map_extent_append {found : Option (List Fragment)}
    {block : Option (List Char × List Char)} {fs : List Fragment} {text : List Char}
    (hfs : extent fs = encode text) (h : found.map extent = block.map fun cut ↦ encode cut.1) :
    (found.map (fs ++ ·)).map extent =
      (block.map fun cut ↦ (text ++ cut.1, cut.2)).map fun cut ↦ encode cut.1 := by
  calc (found.map (fs ++ ·)).map extent
      = (found.map extent).map (encode text ++ ·) := by
        rw [Option.map_map, Option.map_map]
        congr 1
        funext gs
        rw [Function.comp_apply, Function.comp_apply, ← hfs, extent, List.flatMap_append]
        rfl
    _ = (block.map fun cut ↦ encode cut.1).map (encode text ++ ·) := by rw [h]
    _ = _ := by
        rw [Option.map_map, Option.map_map]
        congr 1
        funext cut
        exact (encode_append text cut.1).symm

/-- What a piece means for the depth is what its fragments mean. -/
theorem upToClosing_fragmentsOf {p : Piece} {fs : List Fragment} (h : piece? cs = some (p, after))
    (hclose : ∀ depth,
      (upToClosing depth fs).map extent = (closeBlock depth after).map fun cut ↦ encode cut.1)
    (depth : Nat) :
    (upToClosing depth (fragmentsOf p ++ fs)).map extent =
      (closeBlock depth cs).map fun cut ↦ encode cut.1 := by
  have hextent := extent_fragmentsOf p
  rw [closeBlock_of_piece? h depth]
  cases p with
  | openBrace => exact map_extent_append hextent (hclose (depth + 1))
  | closeBrace =>
    cases depth with
    | zero => rfl
    | succ outer => exact map_extent_append hextent (hclose outer)
  | _ =>
    rw [upToClosing_append (balanced_fragmentsOf (by simp) (by simp))]
    exact map_extent_append hextent (hclose depth)

/-- Every code has a complete cut, and the lexer finds the end of a block where the fragments of the
cut are closed. -/
theorem exists_cutsAll (cs : List Char) :
    ∃ fs rest, CutsAll (encode cs) fs rest ∧ Stops rest ∧ ∀ depth,
      (upToClosing depth fs).map extent = (closeBlock depth cs).map fun cut ↦ encode cut.1 := by
  induction hlen : cs.length using Nat.strongRecOn generalizing cs with
  | ind len ih =>
    subst hlen
    cases hpiece : piece? cs with
    | none =>
      refine ⟨[], encode cs, .nil _, stops_of_piece? hpiece, ?_⟩
      intro depth
      rw [closeBlock_of_piece?_eq_none hpiece]
      rfl
    | some cut =>
      -- A piece has at least one character, so the cut of the rest is known by induction.
      obtain ⟨p, after⟩ := cut
      obtain ⟨fs, rest, hcut, hstops, hclose⟩ := ih _ (length_of_piece? hpiece) after rfl
      exact ⟨fragmentsOf p ++ fs, rest, (cutsAll_of_piece? hpiece).append hcut, hstops,
        upToClosing_fragmentsOf hpiece hclose⟩

end Cut

/-! ## The length of a block -/

section Length

variable {bs : List UInt8} {s : String} {n : Nat}

/-- The number of bytes of the code up to the brace that closes it. -/
def blockLength? (s : String) : Option Nat :=
  (closeBlock 0 s.toList).map fun cut ↦ byteLength cut.1

/-- The code is closed by the byte of a brace. -/
theorem ClosedAt.exists_append (h : ClosedAt bs n) :
    ∃ before rest, bs = before ++ '}'.toUInt8 :: rest ∧ n = before.length + 1 := by
  obtain ⟨body, rest, -, hcut, rfl⟩ := h
  refine ⟨extent body, rest, ?_, ?_⟩
  · simpa [extent, Fragment.bytes] using hcut.eq_append
  · simp [extent, Fragment.bytes]

theorem blockLength?_eq_some_iff : blockLength? s = some n ↔ ClosedAt (encode s.toList) n := by
  obtain ⟨fs, rest, hcut, hstops, hclose⟩ := exists_cutsAll s.toList
  have hlength : (upToClosing 0 fs).map (fun gs ↦ (extent gs).length) = blockLength? s := by
    calc (upToClosing 0 fs).map (fun gs ↦ (extent gs).length)
        = ((upToClosing 0 fs).map extent).map List.length := by rw [Option.map_map]; rfl
      _ = ((closeBlock 0 s.toList).map fun cut ↦ encode cut.1).map List.length := by rw [hclose 0]
      _ = blockLength? s := by simp [blockLength?, Function.comp_def]
  rw [closedAt_iff hcut hstops, hlength]

/-- The brace that closes the code ends at a character. -/
theorem isValid_of_blockLength? (h : blockLength? s = some n) :
    (⟨n⟩ : String.Pos.Raw).IsValid s := by
  obtain ⟨⟨code, after⟩, hclose, rfl⟩ := Option.map_eq_some_iff.1 h
  rw [String.Pos.Raw.isValid_iff_exists_append]
  refine ⟨String.ofList code, String.ofList after, ?_, ?_⟩
  · rw [← String.ofList_append, append_of_closeBlock hclose, String.ofList_toList]
  · apply String.Pos.Raw.ext
    rw [String.byteIdx_rawEndPos, utf8ByteSize_eq, String.toList_ofList]

theorem blockLength?_eq_none_iff :
    blockLength? s = none ↔
      ∃ fs rest, CutsAll (encode s.toList) fs rest ∧ Stops rest ∧
        ∀ body later, Balanced body → fs ≠ body ++ .closing :: later := by
  constructor
  · intro h
    obtain ⟨fs, rest, hcut, hstops, -⟩ := exists_cutsAll s.toList
    refine ⟨fs, rest, hcut, hstops, ?_⟩
    rintro body later hbody rfl
    rw [List.append_cons] at hcut
    obtain ⟨middle, hcut, -⟩ := hcut.of_append
    have hsome := blockLength?_eq_some_iff.2 ⟨body, middle, hbody, hcut, rfl⟩
    rw [h] at hsome
    cases hsome
  · rintro ⟨fs, rest, hcut, hstops, hnone⟩
    rw [Option.eq_none_iff_forall_ne_some]
    intro n hn
    obtain ⟨body, rest', hbody, hcut', -⟩ := blockLength?_eq_some_iff.1 hn
    obtain ⟨later, hfs⟩ := hcut.isPrefix hstops hcut'
    exact hnone body later hbody (by simpa using hfs.symm)

/-- A block ends at the matching brace: the end that the lexer finds is the one at which the
fragments of the code are closed. There is at most one, the byte before it is the brace, and it is
no position inside of a character. Without it, the cut of the code stops before the code is
closed. -/
theorem blockLength?_spec (s : String) :
    (∀ n, blockLength? s = some n ↔ ClosedAt s.toUTF8.data.toList n) ∧
      (∀ n, ClosedAt s.toUTF8.data.toList n →
        (∀ m, ClosedAt s.toUTF8.data.toList m → m = n) ∧ 1 ≤ n ∧ n ≤ s.utf8ByteSize ∧
          s.toUTF8.data.toList[n - 1]? = some '}'.toUInt8 ∧ (⟨n⟩ : String.Pos.Raw).IsValid s) ∧
      (blockLength? s = none ↔
        ∃ fs rest, CutsAll s.toUTF8.data.toList fs rest ∧ Stops rest ∧
          ∀ body later, Balanced body → fs ≠ body ++ .closing :: later) := by
  rw [utf8ByteSize_eq, ← length_encode, data_toUTF8]
  refine ⟨fun n ↦ blockLength?_eq_some_iff, ?_, blockLength?_eq_none_iff⟩
  intro n hn
  have hsome := blockLength?_eq_some_iff.2 hn
  obtain ⟨before, rest, hbytes, rfl⟩ := hn.exists_append
  refine ⟨?_, Nat.le_add_left 1 _, ?_, ?_, isValid_of_blockLength? hsome⟩
  · intro m hm
    rw [blockLength?_eq_some_iff.2 hm] at hsome
    exact Option.some.inj hsome
  · rw [hbytes, List.length_append, List.length_cons]
    omega
  · rw [hbytes]
    simp

example : blockLength? "'\x7d' \"\x7d\" /* \x7d */ \x7b\\\x7d\x7d \x7d \x7d" = some 22 := by
  decide +kernel

end Length

end ParserGenerator.Lexer.Code
