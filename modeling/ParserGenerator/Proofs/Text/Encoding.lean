import ParserGenerator.Text.Position

/-!
# The bytes of a text

A text in UTF-8 is a list of bytes. The byte of a character with a code point below 128 occurs in
the encoding of that character only, and no encoding starts another one, so what a scan over bytes
finds for such characters can be said of the characters themselves.
-/

namespace ParserGenerator.Text

/-- The bytes of a text in UTF-8. -/
def encode (cs : List Char) : List UInt8 := cs.flatMap String.utf8EncodeChar

@[simp] theorem encode_nil : encode [] = [] := rfl

@[simp] theorem encode_cons (c : Char) (cs : List Char) :
    encode (c :: cs) = String.utf8EncodeChar c ++ encode cs := rfl

@[simp] theorem encode_append (a b : List Char) : encode (a ++ b) = encode a ++ encode b :=
  List.flatMap_append

theorem data_toUTF8 (s : String) : s.toUTF8.data.toList = encode s.toList := by
  calc s.toUTF8.data.toList
      = (String.ofList s.toList).toByteArray.data.toList := by
        rw [String.ofList_toList, String.toUTF8_eq_toByteArray]
    _ = (encode s.toList).toByteArray.data.toList := by
        rw [String.toByteArray_ofList]
        rfl
    _ = encode s.toList := by rw [List.data_toByteArray, List.toList_toArray]

@[simp] theorem length_encode (cs : List Char) : (encode cs).length = byteLength cs := by
  induction cs with
  | nil => rfl
  | cons c cs ih => simp [byteLength, ih]

theorem utf8ByteSize_eq (s : String) : s.utf8ByteSize = byteLength s.toList := by
  rw [← length_encode, ← data_toUTF8]
  rfl

/-! ## Characters of one byte -/

/-- The character has a code point below 128. -/
def IsAscii (c : Char) : Prop := c.toNat < 128

instance (c : Char) : Decidable (IsAscii c) := inferInstanceAs (Decidable (c.toNat < 128))

variable {c d : Char}

theorem utf8EncodeChar_of_isAscii (h : IsAscii c) : String.utf8EncodeChar c = [c.toUInt8] := by
  have hle : c.val.toNat ≤ 127 := Nat.le_of_lt_succ h
  simp only [String.utf8EncodeChar, hle, if_true]
  rfl

theorem encode_cons_of_isAscii (h : IsAscii c) (cs : List Char) :
    encode (c :: cs) = c.toUInt8 :: encode cs := by
  rw [encode_cons, utf8EncodeChar_of_isAscii h, List.singleton_append]

theorem utf8Size_eq_one_iff : c.utf8Size = 1 ↔ IsAscii c := by
  rw [Char.utf8Size_eq_one_iff, UInt32.le_iff_toNat_le]
  exact Nat.lt_succ_iff.symm

/-- The bytes of all other characters are at least 128. -/
theorem le_of_mem_utf8EncodeChar (h : ¬ IsAscii c) {b : UInt8}
    (hb : b ∈ String.utf8EncodeChar c) : 128 ≤ b.toNat := by
  have hle : ¬ c.val.toNat ≤ 127 := fun hle ↦ h (Nat.lt_succ_of_le hle)
  simp only [String.utf8EncodeChar, hle, if_false] at hb
  split at hb
  · simp only [List.mem_cons, List.not_mem_nil, or_false] at hb
    rcases hb with rfl | rfl <;> simp only [UInt8.toNat_ofNat'] <;> omega
  · split at hb
    · simp only [List.mem_cons, List.not_mem_nil, or_false] at hb
      rcases hb with rfl | rfl | rfl <;> simp only [UInt8.toNat_ofNat'] <;> omega
    · simp only [List.mem_cons, List.not_mem_nil, or_false] at hb
      rcases hb with rfl | rfl | rfl | rfl <;> simp only [UInt8.toNat_ofNat'] <;> omega

theorem isAscii_of_mem {b : UInt8} (hb : b.toNat < 128)
    (hmem : b ∈ String.utf8EncodeChar c) : IsAscii c := by
  apply Decidable.byContradiction
  intro hc
  exact absurd hb (Nat.not_lt.2 (le_of_mem_utf8EncodeChar hc hmem))

/-- Only the first byte of a character can be below 128. -/
theorem exists_utf8EncodeChar (c : Char) :
    ∃ b bs, String.utf8EncodeChar c = b :: bs ∧ ∀ x ∈ bs, 128 ≤ x.toNat := by
  by_cases h : IsAscii c
  · exact ⟨c.toUInt8, [], utf8EncodeChar_of_isAscii h, by simp⟩
  · obtain ⟨b, bs, hbs⟩ := List.exists_cons_of_ne_nil (String.utf8EncodeChar_ne_nil (c := c))
    refine ⟨b, bs, hbs, ?_⟩
    intro x hx
    apply le_of_mem_utf8EncodeChar h
    rw [hbs]
    exact List.mem_cons_of_mem b hx

theorem toNat_toUInt8 (h : IsAscii c) : c.toUInt8.toNat = c.toNat := by
  have hmod : c.toUInt8.toNat = c.toNat % 256 := rfl
  rw [hmod, Nat.mod_eq_of_lt]
  exact Nat.lt_trans h (by decide)

theorem ne_toUInt8_of_le {b : UInt8} (hb : 128 ≤ b.toNat) (hc : IsAscii c) : b ≠ c.toUInt8 := by
  rintro rfl
  rw [toNat_toUInt8 hc] at hb
  exact absurd hc (Nat.not_lt.2 hb)

theorem toUInt8_inj (hc : IsAscii c) (hd : IsAscii d) : c.toUInt8 = d.toUInt8 ↔ c = d := by
  rw [← Char.toNat_inj, ← toNat_toUInt8 hc, ← toNat_toUInt8 hd, UInt8.toNat_inj]

/-- The byte of such a character occurs in its own encoding only. -/
theorem toUInt8_mem_utf8EncodeChar (hd : IsAscii d) :
    d.toUInt8 ∈ String.utf8EncodeChar c ↔ c = d := by
  by_cases hc : IsAscii c
  · rw [utf8EncodeChar_of_isAscii hc, List.mem_singleton, toUInt8_inj hd hc, eq_comm]
  · constructor
    · intro h
      exact absurd rfl (ne_toUInt8_of_le (le_of_mem_utf8EncodeChar hc h) hd)
    · rintro rfl
      exact absurd hd hc

theorem toUInt8_mem_encode (hd : IsAscii d) {cs : List Char} :
    d.toUInt8 ∈ encode cs ↔ d ∈ cs := by
  simp only [encode, List.mem_flatMap, toUInt8_mem_utf8EncodeChar hd, exists_eq_right]

/-! ## Cutting encodings -/

/-- An encoding is not the start of another one. -/
theorem utf8EncodeChar_append_inj {x y : List UInt8}
    (h : String.utf8EncodeChar c ++ x = String.utf8EncodeChar d ++ y) : c = d ∧ x = y := by
  have hdecode (e : Char) (z : List UInt8) :
      (String.utf8EncodeChar e ++ z).toByteArray.utf8DecodeChar? 0 = some e := by
    rw [List.toByteArray_append]
    exact ByteArray.utf8DecodeChar?_utf8EncodeChar_append
  have hsome : some c = some d := by rw [← hdecode c x, ← hdecode d y, h]
  obtain rfl := Option.some.inj hsome
  exact ⟨rfl, List.append_cancel_left h⟩

/-- Bytes that start with an encoding are those of a text that starts with the character. -/
theorem encode_eq_utf8EncodeChar_append {cs : List Char} {bs : List UInt8} :
    encode cs = String.utf8EncodeChar c ++ bs ↔ ∃ rest, cs = c :: rest ∧ encode rest = bs := by
  constructor
  · intro h
    cases cs with
    | nil => simp [String.utf8EncodeChar_ne_nil] at h
    | cons d rest =>
      obtain ⟨rfl, hrest⟩ := utf8EncodeChar_append_inj h
      exact ⟨rest, rfl, hrest⟩
  · rintro ⟨rest, rfl, rfl⟩
    rfl

theorem encode_eq_cons (hc : IsAscii c) {cs : List Char} {bs : List UInt8} :
    encode cs = c.toUInt8 :: bs ↔ ∃ rest, cs = c :: rest ∧ encode rest = bs := by
  rw [← encode_eq_utf8EncodeChar_append, utf8EncodeChar_of_isAscii hc]
  rfl

theorem head?_encode (hc : IsAscii c) {cs : List Char} :
    (encode cs).head? = some c.toUInt8 ↔ cs.head? = some c := by
  simp only [List.head?_eq_some_iff, encode_eq_cons hc]
  constructor
  · rintro ⟨bs, rest, hcs, -⟩
    exact ⟨rest, hcs⟩
  · rintro ⟨rest, hcs⟩
    exact ⟨_, rest, hcs, rfl⟩

section First

variable {bytes bytes' rest rest' : List UInt8}

/-- A byte is found at its first occurrence. -/
theorem eq_of_append_stop {stop : UInt8} (h : stop ∉ bytes) (h' : stop ∉ bytes')
    (hrest : ∀ b ∈ rest.head?, b = stop) (hrest' : ∀ b ∈ rest'.head?, b = stop)
    (heq : bytes ++ rest = bytes' ++ rest') : bytes = bytes' := by
  have hnil {l after : List UInt8} (hl : stop ∉ l) (hhead : ∀ b ∈ (l ++ after).head?, b = stop) :
      l = [] := by
    cases l with
    | nil => rfl
    | cons b l => exact absurd (hhead b rfl) fun hb ↦ hl (by simp [hb])
  rcases List.append_eq_append_iff.1 heq with ⟨l, rfl, rfl⟩ | ⟨l, rfl, rfl⟩
  · rw [hnil (fun hl ↦ h' (List.mem_append_right _ hl)) hrest, List.append_nil]
  · rw [hnil (fun hl ↦ h (List.mem_append_right _ hl)) hrest', List.append_nil]

/-- A pair of bytes is found at its first occurrence. -/
theorem eq_of_append_pair {a b : UInt8} (hab : a ≠ b) (h : ¬ [a, b] <:+: bytes)
    (h' : ¬ [a, b] <:+: bytes') (heq : bytes ++ a :: b :: rest = bytes' ++ a :: b :: rest') :
    bytes = bytes' := by
  have hnil {before l after after' : List UInt8} (hl : ¬ [a, b] <:+: before ++ l)
      (heq : a :: b :: after = l ++ a :: b :: after') : l = [] := by
    match l with
    | [] => rfl
    | [x] =>
      have hsecond := (List.cons.inj (List.cons.inj heq).2).1
      exact absurd hsecond.symm hab
    | x :: y :: l =>
      simp only [List.cons_append, List.cons.injEq] at heq
      exact absurd ⟨before, l, by simp [heq.1, heq.2.1]⟩ hl
  rcases List.append_eq_append_iff.1 heq with ⟨l, rfl, htail⟩ | ⟨l, rfl, htail⟩
  · rw [hnil h' htail, List.append_nil]
  · rw [hnil h htail, List.append_nil]

/-- A character of one byte that is found in the bytes is found in the text. -/
theorem exists_of_encode_eq {cs : List Char} (hd : IsAscii d) (hbytes : d.toUInt8 ∉ bytes)
    (h : encode cs = bytes ++ d.toUInt8 :: rest) :
    ∃ body later, cs = body ++ d :: later ∧ encode body = bytes := by
  have hmem : d ∈ cs := by
    rw [← toUInt8_mem_encode hd, h]
    exact List.mem_append_right _ List.mem_cons_self
  obtain ⟨body, later, rfl, hbody⟩ := List.eq_append_cons_of_mem hmem
  rw [← toUInt8_mem_encode hd] at hbody
  rw [encode_append, encode_cons, utf8EncodeChar_of_isAscii hd] at h
  exact ⟨body, later, rfl, eq_of_append_stop hbody hbytes (by simp) (by simp) h⟩

end First

/-- A byte that occurs nowhere in the first part of a list starts no pair there. -/
theorem infix_of_infix_append {a b : UInt8} {xs ys : List UInt8} (ha : a ∉ xs)
    (h : [a, b] <:+: xs ++ ys) : [a, b] <:+: ys := by
  induction xs with
  | nil => exact h
  | cons x xs ih =>
    rw [List.mem_cons, not_or] at ha
    rw [List.cons_append, List.infix_cons_iff] at h
    rcases h with hprefix | hinside
    · exact absurd (List.cons_prefix_cons.1 hprefix).1 ha.1
    · exact ih ha.2 hinside

/-- Two characters of one byte are neighbours in a text exactly if their bytes are. -/
theorem infix_encode {a b : Char} (ha : IsAscii a) (hb : IsAscii b) {cs : List Char} :
    [a.toUInt8, b.toUInt8] <:+: encode cs ↔ [a, b] <:+: cs := by
  constructor
  · intro h
    induction cs with
    | nil => simp at h
    | cons c cs ih =>
      rw [List.infix_cons_iff]
      by_cases hca : c = a
      · subst hca
        rw [encode_cons, utf8EncodeChar_of_isAscii ha, List.singleton_append,
          List.infix_cons_iff] at h
        rcases h with hprefix | hinside
        · left
          obtain ⟨bs, hbs⟩ := (List.cons_prefix_cons.1 hprefix).2
          obtain ⟨rest, rfl, -⟩ := (encode_eq_cons hb).1 hbs.symm
          simp
        · exact .inr (ih hinside)
      · right
        apply ih
        apply infix_of_infix_append _ h
        rwa [toUInt8_mem_utf8EncodeChar ha]
  · rintro ⟨before, after, rfl⟩
    refine ⟨encode before, encode after, ?_⟩
    simp [utf8EncodeChar_of_isAscii ha, utf8EncodeChar_of_isAscii hb]

end ParserGenerator.Text
