import ParserGenerator.Proofs.Text.Cuts
import ParserGenerator.Proofs.Text.Encoding
import ParserGenerator.Text.Lines

/-!
# Slices at byte offsets

A text in UTF-8 can be cut before a byte only if a character starts there or the text ends there,
and an unsigned number has no difference with a larger one. The functions here answer `none` where a
program that relies on such a cut or difference would crash, and so do the functions built on them
in the modules that follow: a program that works with byte offsets is safe if it has an answer.
-/

namespace ParserGenerator.Offsets

open Text

/-- The difference of two unsigned numbers. -/
def sub? (m n : Nat) : Option Nat := if n ≤ m then some (m - n) else none

/-- What is left of a text after a cut. -/
abbrev Slice := List Char

/-- Cuts a text before the byte at an offset. -/
def cutAtByte? : Nat → List Char → Option (List Char × List Char)
  | 0, cs => some ([], cs)
  | _ + 1, [] => none
  | n + 1, c :: cs =>
    if c.utf8Size ≤ n + 1 then
      (cutAtByte? (n + 1 - c.utf8Size) cs).map fun cut ↦ (c :: cut.1, cut.2)
    else none

/-- The text before an offset. -/
def sliceTo? (n : Nat) (cs : List Char) : Option (List Char) := (cutAtByte? n cs).map (·.1)

/-- The text from an offset on. -/
def sliceFrom? (n : Nat) (cs : List Char) : Option (List Char) := (cutAtByte? n cs).map (·.2)

/-- The text between two offsets. -/
def slice? (start stop : Nat) (cs : List Char) : Option (List Char) :=
  (sliceTo? stop cs).bind (sliceFrom? start)

/-- The offset of the first character with a property. -/
def find? (p : Char → Bool) (cs : List Char) : Option Nat :=
  if cs.any p then some (byteLength (cs.takeWhile (!p ·))) else none

/-- The offset of the first occurrence of two adjacent characters. -/
def findPair? (a b : Char) (cs : List Char) : Option Nat :=
  (cutAtPair a b cs).map fun cut ↦ byteLength cut.1

theorem sub?_of_le {m n : Nat} (h : n ≤ m) : sub? m n = some (m - n) := if_pos h

@[simp] theorem sub?_add (m n : Nat) : sub? (m + n) m = some n := by
  rw [sub?_of_le (Nat.le_add_right m n), Nat.add_sub_cancel_left]

/-- A cut is right where the text before it has as many bytes as the offset says. -/
theorem cutAtByte?_eq_some_iff {n : Nat} {cs before after : List Char} :
    cutAtByte? n cs = some (before, after) ↔ before ++ after = cs ∧ byteLength before = n := by
  fun_induction cutAtByte? n cs generalizing before with
  | case1 cs =>
    cases before with
    | nil => simp [byteLength, eq_comm]
    | cons c before =>
      have hpos := c.utf8Size_pos
      simp only [Option.some.injEq, Prod.mk.injEq, List.nil_eq, reduceCtorEq, false_and, byteLength,
        false_iff]
      omega
  | case2 n => cases before <;> simp [byteLength]
  | case3 n c cs hle ih =>
    cases before with
    | nil => simp [byteLength]
    | cons d before =>
      constructor
      · intro h
        obtain ⟨⟨a, b⟩, hcut, heq⟩ := Option.map_eq_some_iff.1 h
        obtain ⟨hcons, rfl⟩ := Prod.mk.inj heq
        obtain ⟨rfl, rfl⟩ := List.cons.inj hcons
        obtain ⟨rfl, hlen⟩ := ih.1 hcut
        exact ⟨rfl, by rw [byteLength, hlen]; omega⟩
      · rintro ⟨happ, hlen⟩
        obtain ⟨rfl, rfl⟩ := List.cons.inj happ
        rw [byteLength] at hlen
        rw [ih.2 ⟨rfl, by omega⟩]
        rfl
  | case4 n c cs hlt =>
    cases before with
    | nil => simp [byteLength]
    | cons d before =>
      simp only [reduceCtorEq, List.cons_append, List.cons.injEq, byteLength, false_iff]
      rintro ⟨⟨rfl, -⟩, hlen⟩
      omega

/-- A character of two bytes cannot be cut in the middle. -/
example : cutAtByte? 1 ['ß', '!'] = none := by decide

section Cuts

variable {n start stop : Nat} {cs before middle after : List Char}

theorem cutAtByte?_append (h : byteLength before = n) :
    cutAtByte? n (before ++ after) = some (before, after) :=
  cutAtByte?_eq_some_iff.2 ⟨rfl, h⟩

theorem sliceTo?_append (h : byteLength before = n) :
    sliceTo? n (before ++ after) = some before := by
  rw [sliceTo?, cutAtByte?_append h, Option.map_some]

theorem sliceFrom?_append (h : byteLength before = n) :
    sliceFrom? n (before ++ after) = some after := by
  rw [sliceFrom?, cutAtByte?_append h, Option.map_some]

theorem slice?_append (hstart : byteLength before = start)
    (hstop : byteLength (before ++ middle) = stop) :
    slice? start stop (before ++ (middle ++ after)) = some middle := by
  rw [← List.append_assoc, slice?, sliceTo?_append hstop, Option.bind_some,
    sliceFrom?_append hstart]

end Cuts

/-! ## Searching -/

/-- A search stops where a run of other characters ends. -/
theorem find?_eq (p : Char → Bool) (cs : List Char) :
    find? p cs =
      match cs.dropWhile (!p ·) with
      | [] => none
      | _ :: _ => some (byteLength (cs.takeWhile (!p ·))) := by
  have hany : cs.any p = !(cs.dropWhile (!p ·)).isEmpty := by
    induction cs with
    | nil => rfl
    | cons c cs ih =>
      cases hc : p c with
      | true => simp [hc]
      | false => simpa [hc] using ih
  rw [find?, hany]
  cases cs.dropWhile (!p ·) <;> rfl

/-- A text is cut at a character where the character is found. -/
theorem find?_of_cutAt {sep : Char} {cs before after : List Char}
    (h : cutAt sep cs = some (before, after)) :
    find? (· == sep) cs = some (byteLength before) ∧ before ++ sep :: after = cs := by
  have hstop : (fun c ↦ !(c == sep)) = fun c ↦ c != sep := rfl
  refine ⟨?_, (append_of_cutAt h).1⟩
  rw [find?_eq, hstop]
  rw [cutAt] at h
  cases hdrop : cs.dropWhile (· != sep) with
  | nil =>
    rw [hdrop] at h
    cases h
  | cons c rest =>
    rw [hdrop] at h
    obtain ⟨rfl, -⟩ := Prod.mk.inj (Option.some.inj h)
    rfl

theorem find?_of_cutAt_eq_none {sep : Char} {cs : List Char} (h : cutAt sep cs = none) :
    find? (· == sep) cs = none := by
  have hstop : (fun c ↦ !(c == sep)) = fun c ↦ c != sep := rfl
  rw [find?_eq, hstop]
  rw [cutAt] at h
  cases hdrop : cs.dropWhile (· != sep) with
  | nil => rfl
  | cons c rest =>
    rw [hdrop] at h
    cases h

/-- A search that finds nothing stands for the end of the text. -/
theorem getD_find? (p : Char → Bool) (cs : List Char) :
    (find? p cs).getD (byteLength cs) = byteLength (cs.takeWhile (!p ·)) := by
  have happ := List.takeWhile_append_dropWhile (p := (!p ·)) (l := cs)
  rw [find?_eq]
  cases hdrop : cs.dropWhile (!p ·) with
  | nil =>
    rw [hdrop, List.append_nil] at happ
    rw [happ]
    rfl
  | cons c after => rfl

/-- The text that ends where a search stops. -/
theorem cutAtByte?_find (p : Char → Bool) (cs : List Char) :
    cutAtByte? ((find? p cs).getD (byteLength cs)) cs =
      some (cs.takeWhile (!p ·), cs.dropWhile (!p ·)) := by
  have happ := List.takeWhile_append_dropWhile (p := (!p ·)) (l := cs)
  have hcut := @cutAtByte?_append _ _ (cs.dropWhile (!p ·)) (getD_find? p cs).symm
  rwa [happ] at hcut

/-! ## Bytes -/

/-- The first byte of a character tells the characters of one byte apart. -/
theorem exists_bytes (c : Char) :
    ∃ b bs, String.utf8EncodeChar c = b :: bs ∧ (∀ x ∈ bs, 128 ≤ x.toNat) ∧
      ∀ d, IsAscii d → (b = d.toUInt8 ↔ c = d) := by
  obtain ⟨b, bs, hbytes, hbs⟩ := exists_utf8EncodeChar c
  refine ⟨b, bs, hbytes, hbs, ?_⟩
  intro d hd
  constructor
  · rintro rfl
    apply (toUInt8_mem_utf8EncodeChar hd).1
    rw [hbytes]
    exact List.mem_cons_self
  · rintro rfl
    rw [utf8EncodeChar_of_isAscii hd] at hbytes
    exact (List.cons.inj hbytes).1.symm

section Bytes

variable {before after : List Char} {c : Char}

theorem getElem?_encode_append (before after : List Char) (k : Nat) :
    (encode (before ++ after))[byteLength before + k]? = (encode after)[k]? := by
  rw [encode_append, List.getElem?_append_right (by simp)]
  simp

theorem getElem?_encode_of_isAscii (hc : IsAscii c) (cs : List Char) :
    (encode (c :: cs))[0]? = some c.toUInt8 := by
  rw [encode_cons_of_isAscii hc, List.getElem?_cons_zero]

theorem getElem?_encode_succ (hc : IsAscii c) (cs : List Char) (k : Nat) :
    (encode (c :: cs))[k + 1]? = (encode cs)[k]? := by
  rw [encode_cons_of_isAscii hc, List.getElem?_cons_succ]

/-- The first byte of a text tells the characters of one byte apart. -/
theorem getElem?_encode_zero_eq_iff (hc : IsAscii c) {cs : List Char} :
    (encode cs)[0]? = some c.toUInt8 ↔ cs.head? = some c := by
  rw [← List.head?_eq_getElem?, head?_encode hc]

end Bytes

/-! ## Answers for lists -/

/-- A function with an answer for every member has one for the list. -/
theorem mapM_eq_some {α β : Type} {f : α → Option β} {g : α → β} {l : List α}
    (h : ∀ a ∈ l, f a = some (g a)) : l.mapM f = some (l.map g) := by
  induction l with
  | nil => rfl
  | cons a l ih =>
    obtain ⟨ha, hl⟩ := List.forall_mem_cons.1 h
    rw [List.mapM_cons, ha, ih hl]
    rfl

/-- A search with an answer for every member has one for the list. -/
theorem findSomeM?_eq_some {α β : Type} {f : α → Option (Option β)} {g : α → Option β} {l : List α}
    (h : ∀ a ∈ l, f a = some (g a)) : l.findSomeM? f = some (l.findSome? g) := by
  induction l with
  | nil => rfl
  | cons a l ih =>
    obtain ⟨ha, hl⟩ := List.forall_mem_cons.1 h
    rw [List.findSomeM?, ha, List.findSome?_cons, ih hl]
    cases g a <;> rfl

end ParserGenerator.Offsets
