import ParserGenerator.Lexer.ActionBlock
import ParserGenerator.Proofs.Lexer.Lookahead
import ParserGenerator.Proofs.Offsets.Slices

/-!
# Action blocks at byte offsets

The end of an action block is found by a scan over bytes. An escape takes two bytes, so it may end
inside a character; the bytes there are at least 128 and are passed over one at a time until the
next character starts. Strings, character literals and comments are looked for in slices, and only
where a character of one byte has been found, so every slice starts at a character: `scanCode_eq`.
-/

namespace ParserGenerator.Offsets

open Text Lexer

/-! ## The scans -/

/-- The length of a string that starts with a double quote, from the byte at `j` on. -/
def stringLength (bytes : List UInt8) (j : Nat) : Option Nat :=
  match _h : bytes[j]? with
  | none => none
  | some b =>
    if b = '\\'.toUInt8 then stringLength bytes (j + 2)
    else if b = '\n'.toUInt8 then none
    else if b = '"'.toUInt8 then some (j + 1)
    else stringLength bytes (j + 1)
termination_by bytes.length - j
decreasing_by
  all_goals
    obtain ⟨hlt, -⟩ := List.getElem?_eq_some_iff.1 _h
    omega

/-- The characters of a text with the offsets where they start. -/
def charIndices (offset : Nat) : List Char → List (Nat × Char)
  | [] => []
  | c :: cs => (offset, c) :: charIndices (offset + c.utf8Size) cs

/-- The length of a character literal at the start of a text. -/
def characterLength (src : List Char) : Option (Option Nat) :=
  match (charIndices 0 src).drop 1 with
  | [] => some none
  | (_, c) :: more =>
    if c = '\\' then
      match (sliceFrom? 3 src).bind (find? fun c ↦ c == '\'' || c == '\n') with
      | none => some none
      | some n => do
        let b ← (encode src)[n + 3]?
        some (if b = '\''.toUInt8 then some (n + 3 + 1) else none)
    else if c = '\'' ∨ c = '\n' then some none
    else
      match more with
      | (k, '\'') :: _ => some (some (k + 1))
      | _ => some none

/-- The length of the code up to the brace that closes `depth` open blocks, from the byte at `i`
on. -/
def Slice.scanCode (src : Slice) (depth i : Nat) : Option (Option Nat) :=
  match (encode src)[i]? with
  | none => some none
  | some b =>
    if b = '{'.toUInt8 then src |>.scanCode (depth + 1) (i + 1)
    else if b = '}'.toUInt8 then do
      let outer ← sub? depth 1
      if outer = 0 then some (some (i + 1)) else src |>.scanCode outer (i + 1)
    else if b = '\\'.toUInt8 then src |>.scanCode depth (i + 2)
    else if b = '"'.toUInt8 then do
      let rest ← sliceFrom? i src
      match stringLength (encode rest) 1 with
      | some n => src |>.scanCode depth (i + n)
      | none => src |>.scanCode depth (i + 1)
    else if b = '\''.toUInt8 then do
      let rest ← sliceFrom? i src
      match ← characterLength rest with
      | some n => src |>.scanCode depth (i + n)
      | none => src |>.scanCode depth (i + 1)
    else if b = '/'.toUInt8 ∧ (encode src)[i + 1]? = some '/'.toUInt8 then do
      let rest ← sliceFrom? i src
      let left ← sub? (byteLength src) i
      src |>.scanCode depth (i + (find? (· == '\n') rest).getD left)
    else if b = '/'.toUInt8 ∧ (encode src)[i + 1]? = some '*'.toUInt8 then do
      let rest ← sliceFrom? (i + 2) src
      match findPair? '*' '/' rest with
      | some n => src |>.scanCode depth (i + (n + 4))
      | none => some none
    else src |>.scanCode depth (i + 1)
partial_fixpoint

open Slice

/-! ## Strings -/

theorem getElem?_append_length (pre post : List UInt8) : (pre ++ post)[pre.length]? = post[0]? := by
  rw [List.getElem?_append_right (Nat.le_refl _), Nat.sub_self]

/-- Bytes that belong to no character of one byte are passed over. -/
theorem stringLength_pass (pre : List UInt8) {bs : List UInt8} (h : ∀ b ∈ bs, 128 ≤ b.toNat)
    (post : List UInt8) :
    stringLength (pre ++ (bs ++ post)) pre.length =
      stringLength (pre ++ bs ++ post) (pre ++ bs).length := by
  induction bs generalizing pre with
  | nil => simp
  | cons b bs ih =>
    obtain ⟨hb, hbs⟩ := List.forall_mem_cons.1 h
    have hget : (pre ++ (b :: bs ++ post))[pre.length]? = some b := getElem?_append_length ..
    rw [stringLength, hget]
    have hescape := ne_toUInt8_of_le hb (c := '\\') (by decide)
    have hfeed := ne_toUInt8_of_le hb (c := '\n') (by decide)
    have hquote := ne_toUInt8_of_le hb (c := '"') (by decide)
    simp only [hescape, hfeed, hquote, if_false]
    have hnext := ih (pre ++ [b]) hbs
    simpa using hnext

theorem stringLength_cons (pre : List UInt8) {c : Char} (hescape : c ≠ '\\') (hfeed : c ≠ '\n')
    (hquote : c ≠ '"') (cs : List Char) :
    stringLength (pre ++ encode (c :: cs)) pre.length =
      stringLength (pre ++ String.utf8EncodeChar c ++ encode cs)
        (pre ++ String.utf8EncodeChar c).length := by
  obtain ⟨b, bs, hbytes, hbs, hfirst⟩ := exists_bytes c
  have hget : (pre ++ (b :: bs ++ encode cs))[pre.length]? = some b := getElem?_append_length ..
  rw [encode_cons, hbytes, stringLength, hget]
  simp only [hfirst '\\' (by decide), hfirst '\n' (by decide), hfirst '"' (by decide), hescape,
    hfeed, hquote, if_false]
  have hpass := stringLength_pass (pre ++ [b]) hbs (encode cs)
  simpa using hpass

theorem stringLength_escape (pre : List UInt8) (c : Char) (cs : List Char) :
    stringLength (pre ++ encode ('\\' :: c :: cs)) pre.length =
      stringLength (pre ++ '\\'.toUInt8 :: String.utf8EncodeChar c ++ encode cs)
        (pre ++ '\\'.toUInt8 :: String.utf8EncodeChar c).length := by
  obtain ⟨b, bs, hbytes, hbs, -⟩ := exists_bytes c
  have hget : (pre ++ encode ('\\' :: c :: cs))[pre.length]? = some '\\'.toUInt8 :=
    getElem?_append_length ..
  rw [stringLength, hget, encode_cons_of_isAscii (by decide), encode_cons, hbytes]
  have hpass := stringLength_pass (pre ++ ['\\'.toUInt8, b]) hbs (encode cs)
  simpa using hpass

/-- The length of a string is that of its characters. -/
theorem stringLength_eq (pre : List UInt8) (cs : List Char) :
    stringLength (pre ++ encode cs) pre.length =
      (stringTail cs).map fun cut ↦ pre.length + byteLength cut.1 := by
  fun_induction stringTail cs generalizing pre with
  | case1 =>
    rw [stringLength, getElem?_append_length]
    rfl
  | case2 rest =>
    rw [stringLength, getElem?_append_length, getElem?_encode_of_isAscii (by decide)]
    rfl
  | case3 rest =>
    rw [stringLength, getElem?_append_length, getElem?_encode_of_isAscii (by decide)]
    rfl
  | case4 c rest ih =>
    rw [stringLength_escape, ih, Option.map_map]
    congr 1
    funext cut
    have hone : '\\'.utf8Size = 1 := rfl
    simp only [Function.comp_apply, List.length_append, List.length_cons,
      String.length_utf8EncodeChar, byteLength, hone]
    omega
  | case5 c rest hquote hfeed hescape ih =>
    by_cases hc : c = '\\'
    · subst hc
      cases rest with
      | nil =>
        have hget : (pre ++ encode ['\\'])[pre.length]? = some '\\'.toUInt8 :=
          getElem?_append_length ..
        have hend : (pre ++ encode ['\\'])[pre.length + 2]? = none := by
          rw [encode_cons_of_isAscii (by decide), encode_nil]
          simp
        rw [stringLength, hget]
        dsimp only
        rw [if_pos rfl, stringLength, hend]
        rfl
      | cons d rest => exact absurd rfl (hescape d rest rfl)
    · rw [stringLength_cons pre hc hfeed hquote, ih, Option.map_map]
      congr 1
      funext cut
      simp [byteLength, Nat.add_assoc]

/-! ## Character literals -/

/-- The third byte is where the character after an escape ends only if it has one byte. -/
theorem sliceFrom?_three (c : Char) (cs : List Char) :
    sliceFrom? 3 ('\'' :: '\\' :: c :: cs) = if c.utf8Size = 1 then some cs else none := by
  split
  · next hc =>
    have hlen : byteLength ['\'', '\\', c] = 3 := by
      simp only [byteLength, hc]
      rfl
    exact sliceFrom?_append hlen
  · next hc =>
    have hlt : ¬ c.utf8Size ≤ 1 := by
      have hpos := c.utf8Size_pos
      omega
    have hnone : cutAtByte? 1 (c :: cs) = none := if_neg hlt
    have hcut : cutAtByte? 3 ('\'' :: '\\' :: c :: cs) =
        ((cutAtByte? 1 (c :: cs)).map fun cut ↦ ('\\' :: cut.1, cut.2)).map
          fun cut ↦ ('\'' :: cut.1, cut.2) := rfl
    rw [sliceFrom?, hcut, hnone]
    rfl

theorem characterLength_escape (c : Char) (cs : List Char) :
    characterLength ('\'' :: '\\' :: c :: cs) =
      some ((characterTail ('\\' :: c :: cs)).map fun cut ↦ 1 + byteLength cut.1) := by
  have hstop : (fun x ↦ !(x == '\'' || x == '\n')) = fun x ↦ x != '\'' && x != '\n' := by
    funext x
    simp [bne]
  have hindices : (charIndices 0 ('\'' :: '\\' :: c :: cs)).drop 1 =
      (1, '\\') :: charIndices 2 (c :: cs) := rfl
  rw [characterLength, hindices]
  dsimp only
  rw [if_pos rfl, sliceFrom?_three]
  by_cases hc : c.utf8Size = 1
  · simp only [hc, if_true, Option.bind_some, find?_eq, hstop, characterTail]
    have happ := List.takeWhile_append_dropWhile (p := fun x ↦ x != '\'' && x != '\n') (l := cs)
    cases hdrop : cs.dropWhile fun x ↦ x != '\'' && x != '\n' with
    | nil => rfl
    | cons x after =>
      obtain ⟨b, bs, hbytes, -, hfirst⟩ := exists_bytes x
      let body := cs.takeWhile fun x ↦ x != '\'' && x != '\n'
      have hlen : byteLength ('\'' :: '\\' :: c :: body) = byteLength body + 3 := by
        have hquote : '\''.utf8Size = 1 := rfl
        have hescape : '\\'.utf8Size = 1 := rfl
        simp only [byteLength, hc, hquote, hescape]
        omega
      have hget : (encode ('\'' :: '\\' :: c :: cs))[byteLength body + 3]? = some b := by
        rw [← happ, hdrop, ← hlen]
        have hat := getElem?_encode_append ('\'' :: '\\' :: c :: body) (x :: after) 0
        rw [encode_cons x, hbytes] at hat
        exact hat
      dsimp only
      rw [hget]
      have hb := hfirst '\'' (by decide)
      have hquote : '\''.utf8Size = 1 := rfl
      have hescape : '\\'.utf8Size = 1 := rfl
      by_cases hx : x = '\''
      · subst hx
        simp only [Option.bind_eq_bind, Option.bind_some, hb.2 rfl, if_true, Option.map_some]
        have hlen : 1 + byteLength ('\\' :: c :: body ++ ['\'']) = byteLength body + 3 + 1 := by
          simp only [List.cons_append, byteLength, byteLength_append, hquote, hescape, hc]
          omega
        exact congrArg (some <| some ·) hlen.symm
      · simp [hb, hx]
  · simp [hc, characterTail]

/-- The length of a character literal is that of its characters. -/
theorem characterLength_eq (cs : List Char) :
    characterLength ('\'' :: cs) =
      some ((characterTail cs).map fun cut ↦ 1 + byteLength cut.1) := by
  have hone : '\''.utf8Size = 1 := rfl
  cases cs with
  | nil => rfl
  | cons c cs =>
    by_cases hescape : c = '\\'
    · subst hescape
      cases cs with
      | nil => rfl
      | cons d cs => exact characterLength_escape d cs
    · cases cs with
      | nil => simp [characterLength, charIndices, hescape, characterTail]
      | cons d cs =>
        by_cases hd : d = '\''
        · subst hd
          by_cases hc : c = '\'' ∨ c = '\n'
          · simp [characterLength, charIndices, hescape, characterTail, hc]
          · simp [characterLength, charIndices, hescape, characterTail, hc, byteLength, hone,
              Nat.add_assoc]
        · simp [characterLength, charIndices, hescape, characterTail, hd]

/-! ## Code -/

section Scan

variable {before cs : List Char} (depth : Nat)

theorem getElem?_encode_cons {c : Char} (hc : IsAscii c) (before cs : List Char) :
    (encode (before ++ c :: cs))[byteLength before]? = some c.toUInt8 := by
  have hget := getElem?_encode_append before (c :: cs) 0
  rwa [Nat.add_zero, getElem?_encode_of_isAscii hc] at hget

theorem scanCode_nil : scanCode before depth (byteLength before) = some none := by
  have hend : (encode before)[byteLength before]? = none := by simp
  rw [scanCode, hend]

theorem scanCode_openBrace :
    scanCode (before ++ '{' :: cs) depth (byteLength before) =
      scanCode (before ++ '{' :: cs) (depth + 1) (byteLength before + 1) := by
  rw [scanCode, getElem?_encode_cons (by decide)]
  exact if_pos rfl

theorem scanCode_closeBrace :
    scanCode (before ++ '}' :: cs) (depth + 1) (byteLength before) =
      if depth = 0 then some (some (byteLength before + 1))
      else scanCode (before ++ '}' :: cs) depth (byteLength before + 1) := by
  rw [scanCode, getElem?_encode_cons (by decide)]
  dsimp only
  rw [if_neg (by decide), if_pos rfl, Nat.add_comm depth 1, sub?_add]
  rfl

/-- Bytes that belong to no character of one byte are passed over. -/
theorem scanCode_pass {src : List Char} {pre bs post : List UInt8}
    (hsrc : encode src = pre ++ (bs ++ post)) (h : ∀ b ∈ bs, 128 ≤ b.toNat) :
    scanCode src depth pre.length = scanCode src depth (pre.length + bs.length) := by
  induction bs generalizing pre with
  | nil => rfl
  | cons b bs ih =>
    obtain ⟨hb, hbs⟩ := List.forall_mem_cons.1 h
    have hget : (encode src)[pre.length]? = some b := by
      rw [hsrc, getElem?_append_length]
      rfl
    have hne (c : Char) (hc : IsAscii c) : b ≠ c.toUInt8 := ne_toUInt8_of_le hb hc
    have hnext := @ih (pre ++ [b]) (by simpa using hsrc) hbs
    rw [scanCode, hget]
    simp only [hne '{' (by decide), hne '}' (by decide), hne '\\' (by decide), hne '"' (by decide),
      hne '\'' (by decide), hne '/' (by decide), false_and, if_false]
    simpa [Nat.add_assoc, Nat.add_comm 1] using hnext

/-- An escape takes two bytes; what is left of its character is passed over. -/
theorem scanCode_escape (c : Char) :
    scanCode (before ++ '\\' :: c :: cs) depth (byteLength before) =
      scanCode (before ++ '\\' :: c :: cs) depth (byteLength (before ++ ['\\', c])) := by
  obtain ⟨b, bs, hbytes, hbs, -⟩ := exists_bytes c
  have hsrc : encode (before ++ '\\' :: c :: cs) =
      encode before ++ ['\\'.toUInt8, b] ++ (bs ++ encode cs) := by
    rw [encode_append, encode_cons_of_isAscii (by decide), encode_cons, hbytes]
    simp
  have hlen : byteLength (before ++ ['\\', c]) =
      (encode before ++ ['\\'.toUInt8, b]).length + bs.length := by
    have hc := congrArg List.length hbytes
    rw [String.length_utf8EncodeChar, List.length_cons] at hc
    have hescape : '\\'.utf8Size = 1 := rfl
    simp only [byteLength_append, byteLength, List.length_append, List.length_cons, length_encode,
      List.length_nil, hescape, hc]
    omega
  rw [hlen, ← scanCode_pass depth hsrc hbs, scanCode, getElem?_encode_cons (by decide)]
  dsimp only
  rw [if_neg (by decide), if_neg (by decide), if_pos rfl, List.length_append, length_encode]
  rfl

theorem scanCode_string :
    scanCode (before ++ '"' :: cs) depth (byteLength before) =
      scanCode (before ++ '"' :: cs) depth (byteLength before +
        ((stringTail cs).map fun cut ↦ 1 + byteLength cut.1).getD 1) := by
  have hlength : stringLength (encode ('"' :: cs)) 1 =
      (stringTail cs).map fun cut ↦ 1 + byteLength cut.1 := stringLength_eq ['"'.toUInt8] cs
  rw [scanCode, getElem?_encode_cons (by decide)]
  dsimp only
  rw [if_neg (by decide), if_neg (by decide), if_neg (by decide), if_pos rfl,
    sliceFrom?_append rfl, Option.bind_eq_bind, Option.bind_some, hlength]
  cases stringTail cs <;> rfl

theorem scanCode_character :
    scanCode (before ++ '\'' :: cs) depth (byteLength before) =
      scanCode (before ++ '\'' :: cs) depth (byteLength before +
        ((characterTail cs).map fun cut ↦ 1 + byteLength cut.1).getD 1) := by
  rw [scanCode, getElem?_encode_cons (by decide)]
  dsimp only
  rw [if_neg (by decide), if_neg (by decide), if_neg (by decide), if_neg (by decide), if_pos rfl,
    sliceFrom?_append rfl, Option.bind_eq_bind, Option.bind_some, characterLength_eq,
    Option.bind_eq_bind, Option.bind_some]
  cases characterTail cs <;> rfl

theorem getElem?_encode_second {c : Char} (hc : IsAscii c) (before cs : List Char) :
    (encode (before ++ c :: cs))[byteLength before + 1]? = (encode cs)[0]? := by
  rw [getElem?_encode_append, getElem?_encode_succ hc]

theorem scanCode_lineComment :
    scanCode (before ++ '/' :: '/' :: cs) depth (byteLength before) =
      scanCode (before ++ '/' :: '/' :: cs) depth
        (byteLength (before ++ '/' :: '/' :: cs.takeWhile (· != '\n'))) := by
  have hslash : (encode (before ++ '/' :: '/' :: cs))[byteLength before + 1]? =
      some '/'.toUInt8 := by
    rw [getElem?_encode_second (by decide), getElem?_encode_of_isAscii (by decide)]
  have hfind : (find? (· == '\n') ('/' :: '/' :: cs)).getD (byteLength ('/' :: '/' :: cs)) =
      byteLength ('/' :: '/' :: cs.takeWhile (· != '\n')) := getD_find? ..
  rw [scanCode, getElem?_encode_cons (by decide)]
  dsimp only
  rw [if_neg (by decide), if_neg (by decide), if_neg (by decide), if_neg (by decide),
    if_neg (by decide), if_pos ⟨rfl, hslash⟩, sliceFrom?_append rfl, byteLength_append, sub?_add,
    Option.bind_eq_bind, Option.bind_some, Option.bind_eq_bind, Option.bind_some, hfind,
    byteLength_append]

theorem scanCode_blockComment :
    scanCode (before ++ '/' :: '*' :: cs) depth (byteLength before) =
      match cutAtPair '*' '/' cs with
      | some (body, _) =>
        scanCode (before ++ '/' :: '*' :: cs) depth
          (byteLength (before ++ ('/' :: '*' :: body ++ ['*', '/'])))
      | none => some none := by
  have hstar : (encode (before ++ '/' :: '*' :: cs))[byteLength before + 1]? =
      some '*'.toUInt8 := by
    rw [getElem?_encode_second (by decide), getElem?_encode_of_isAscii (by decide)]
  have hslice : sliceFrom? (byteLength before + 2) (before ++ '/' :: '*' :: cs) = some cs := by
    have hlen : byteLength (before ++ ['/', '*']) = byteLength before + 2 := byteLength_append ..
    have happ : before ++ '/' :: '*' :: cs = before ++ ['/', '*'] ++ cs := by simp
    rw [happ, sliceFrom?_append hlen]
  have hline : ¬ ('/'.toUInt8 = '/'.toUInt8 ∧
      (encode (before ++ '/' :: '*' :: cs))[byteLength before + 1]? = some '/'.toUInt8) := by
    rw [hstar]
    decide
  rw [scanCode, getElem?_encode_cons (by decide)]
  dsimp only
  rw [if_neg (by decide), if_neg (by decide), if_neg (by decide), if_neg (by decide),
    if_neg (by decide), if_neg hline, if_pos ⟨rfl, hstar⟩, hslice, Option.bind_eq_bind,
    Option.bind_some, findPair?]
  cases cutAtPair '*' '/' cs with
  | none => rfl
  | some cut =>
    have hlen : byteLength (before ++ ('/' :: '*' :: cut.1 ++ ['*', '/'])) =
        byteLength before + (byteLength cut.1 + 4) := by
      have hslash : '/'.utf8Size = 1 := rfl
      have hstar : '*'.utf8Size = 1 := rfl
      simp only [byteLength_append, byteLength, hslash, hstar]
      omega
    dsimp only [Option.map_some]
    rw [hlen]

/-- Any other character is passed over. -/
theorem scanCode_other {c : Char} (hopen : c ≠ '{') (hclose : c ≠ '}') (hescape : c ≠ '\\')
    (hquote : c ≠ '"') (hapostrophe : c ≠ '\'') (hline : c = '/' → cs.head? ≠ some '/')
    (hblock : c = '/' → cs.head? ≠ some '*') :
    scanCode (before ++ c :: cs) depth (byteLength before) =
      scanCode (before ++ c :: cs) depth (byteLength (before ++ [c])) := by
  obtain ⟨b, bs, hbytes, hbs, hfirst⟩ := exists_bytes c
  have hsrc : encode (before ++ c :: cs) = encode before ++ [b] ++ (bs ++ encode cs) := by
    rw [encode_append, encode_cons, hbytes]
    simp
  have hget : (encode (before ++ c :: cs))[byteLength before]? = some b := by
    rw [hsrc, List.append_assoc, ← length_encode, getElem?_append_length]
    rfl
  have hslash (d : Char) (hd : IsAscii d) (hne : c = '/' → cs.head? ≠ some d) :
      ¬ (b = '/'.toUInt8 ∧
        (encode (before ++ c :: cs))[byteLength before + 1]? = some d.toUInt8) := by
    rintro ⟨hb, hnext⟩
    obtain rfl := (hfirst '/' (by decide)).1 hb
    rw [getElem?_encode_second (by decide), getElem?_encode_zero_eq_iff hd] at hnext
    exact hne rfl hnext
  have hlen : byteLength (before ++ [c]) = (encode before ++ [b]).length + bs.length := by
    have hc := congrArg List.length hbytes
    rw [String.length_utf8EncodeChar, List.length_cons] at hc
    simp only [byteLength_append, byteLength, List.length_append, List.length_cons, length_encode,
      List.length_nil, hc]
    omega
  rw [hlen, ← scanCode_pass depth hsrc hbs, scanCode, hget]
  simp only [hfirst '{' (by decide), hfirst '}' (by decide), hfirst '\\' (by decide),
    hfirst '"' (by decide), hfirst '\'' (by decide), hopen, hclose, hescape, hquote, hapostrophe,
    hslash '/' (by decide) hline, hslash '*' (by decide) hblock, if_false, List.length_append,
    length_encode, List.length_cons, List.length_nil]

/-- A piece that is no brace is passed over as a whole. -/
theorem scanCode_of_piece? {rest : List Char} {p : Piece} (h : piece? cs = some (p, rest))
    (hopen : p ≠ .openBrace) (hclose : p ≠ .closeBrace) :
    scanCode (before ++ cs) depth (byteLength before) =
      scanCode (before ++ cs) depth (byteLength (before ++ p.text)) := by
  revert h
  fun_cases piece? cs <;> intro h
  case case11 body =>
    obtain ⟨cut, hcut, heq⟩ := Option.map_eq_some_iff.1 h
    obtain ⟨rfl, rfl⟩ := Prod.mk.inj heq
    rw [scanCode_blockComment, hcut]
    rfl
  all_goals simp only [Option.some.injEq, Prod.mk.injEq, reduceCtorEq] at h
  all_goals obtain ⟨rfl, rfl⟩ := h
  case case2 => exact absurd rfl hopen
  case case3 => exact absurd rfl hclose
  case case5 c rest => exact scanCode_escape depth c
  case case6 tail htail =>
    rw [scanCode_string, htail, byteLength_append]
    rfl
  case case7 htail =>
    rw [scanCode_string, htail, byteLength_append]
    rfl
  case case8 tail htail =>
    rw [scanCode_character, htail, byteLength_append]
    rfl
  case case9 htail =>
    rw [scanCode_character, htail, byteLength_append]
    rfl
  case case10 rest => exact scanCode_lineComment depth
  case case12 c rest hopen' hclose' hend hescape hstring hcharacter hline hblock =>
    have hne : c ≠ '\\' := by
      rintro rfl
      cases rest with
      | nil => exact hend rfl rfl
      | cons d rest => exact hescape d rest rfl rfl
    apply scanCode_other depth hopen' hclose' hne hstring hcharacter
    · rintro rfl hhead
      obtain ⟨after, hafter⟩ := List.head?_eq_some_iff.1 hhead
      exact hline after rfl hafter
    · rintro rfl hhead
      obtain ⟨after, hafter⟩ := List.head?_eq_some_iff.1 hhead
      exact hblock after rfl hafter

/-- Without a piece the scan ends without a brace. -/
theorem scanCode_of_piece?_eq_none (h : piece? cs = none) :
    scanCode (before ++ cs) depth (byteLength before) = some none := by
  revert h
  fun_cases piece? cs <;> intro h
  case case1 =>
    rw [List.append_nil]
    exact scanCode_nil depth
  case case4 =>
    -- The escape ends behind the text.
    have hend : (encode (before ++ ['\\']))[byteLength before + 2]? = none := by
      rw [getElem?_encode_append, encode_cons_of_isAscii (by decide), encode_nil]
      rfl
    rw [scanCode, getElem?_encode_cons (by decide)]
    dsimp only
    rw [if_neg (by decide), if_neg (by decide), if_pos rfl, scanCode, hend]
  case case11 body =>
    rw [scanCode_blockComment, Option.map_eq_none_iff.1 h]
  all_goals cases h

end Scan

/-- The scan finds the end of the block, and every slice on the way is at a character. -/
theorem scanCode_eq (before : List Char) (depth : Nat) (cs : List Char) :
    scanCode (before ++ cs) (depth + 1) (byteLength before) =
      some ((closeBlock depth cs).map fun cut ↦ byteLength before + byteLength cut.1) := by
  fun_induction closeBlock depth cs generalizing before with
  | case1 depth cs hp => exact scanCode_of_piece?_eq_none (depth + 1) hp
  | case2 cs rest hp =>
    obtain rfl : '}' :: rest = cs := append_of_piece? hp
    exact scanCode_closeBrace 0
  | case3 cs rest hp outer ih =>
    obtain rfl : '}' :: rest = cs := append_of_piece? hp
    have hone : '}'.utf8Size = 1 := rfl
    have hnext := ih (before ++ ['}'])
    simp only [List.append_assoc, List.singleton_append, byteLength_append, byteLength,
      hone] at hnext
    rw [scanCode_closeBrace, if_neg (Nat.succ_ne_zero outer)]
    refine hnext.trans ?_
    rw [Option.map_map]
    congr 2
    funext cut
    simp only [Function.comp_apply, byteLength, hone]
    omega
  | case4 depth cs rest hp ih =>
    obtain rfl : '{' :: rest = cs := append_of_piece? hp
    have hone : '{'.utf8Size = 1 := rfl
    have hnext := ih (before ++ ['{'])
    simp only [List.append_assoc, List.singleton_append, byteLength_append, byteLength,
      hone] at hnext
    rw [scanCode_openBrace]
    refine hnext.trans ?_
    rw [Option.map_map]
    congr 2
    funext cut
    simp only [Function.comp_apply, byteLength, hone]
    omega
  | case5 depth cs p rest hclose hopen hp ih =>
    have hnext := ih (before ++ p.text)
    rw [List.append_assoc, append_of_piece? hp] at hnext
    rw [scanCode_of_piece? (depth + 1) hp, hnext, Option.map_map]
    · congr 2
      funext cut
      simp [Nat.add_assoc]
    · rintro rfl
      exact hopen rfl
    · rintro rfl
      exact hclose rfl

end ParserGenerator.Offsets
