import Mathlib.Data.Nat.Digits.Defs
import ParserGenerator.Proofs.Text.Cuts
import ParserGenerator.Template.Basic
import ParserGenerator.Text.Quoted

/-!
# Reading string literals

The escapes of a quoted text are undone one character at a time, so a literal is read back from the
front of any text. A reader does not have to know which characters are written by number: every code
point is read from its hexadecimal digits, and every character other than the quote and the
backslash from itself.
-/

namespace ParserGenerator.Text

/-! ## Code points -/

def hexDigit? (c : Char) : Option Nat :=
  if '0' ≤ c ∧ c ≤ '9' then some (c.toNat - '0'.toNat)
  else if 'a' ≤ c ∧ c ≤ 'f' then some (c.toNat - 'a'.toNat + 10)
  else if 'A' ≤ c ∧ c ≤ 'F' then some (c.toNat - 'A'.toNat + 10)
  else none

/-- The number that is written in hexadecimal digits after the number `n`. -/
def hexFrom? (n : Nat) (cs : List Char) : Option Nat :=
  cs.foldlM (fun n c ↦ (hexDigit? c).map (16 * n + ·)) n

/-- The character of a code point. -/
def codePoint? (n : Nat) : Option Char := if n.isValidChar then some (Char.ofNat n) else none

theorem hexDigit?_digitChar {k : Nat} (h : k < 16) : hexDigit? k.digitChar = some k := by
  have hall : ∀ k < 16, hexDigit? k.digitChar = some k := by decide
  exact hall k h

theorem hexFrom?_toDigits (n : Nat) : hexFrom? 0 (Nat.toDigits 16 n) = some n := by
  induction n using Nat.base_induction 16 (by decide) with
  | single k hk => simp [Nat.toDigits_of_lt_base hk, hexFrom?, hexDigit?_digitChar hk]
  | digit m k hk hm ih =>
    rw [← Nat.toDigits_append_toDigits (by decide) hm hk, hexFrom?, List.foldlM_append]
    rw [hexFrom?] at ih
    simp [ih, Nat.toDigits_of_lt_base hk, hexDigit?_digitChar hk]

/-- A character that is no hexadecimal digit does not occur in a numeral. -/
theorem not_mem_toDigits {c : Char} (hc : ∀ k < 16, c ≠ k.digitChar) (n : Nat) :
    c ∉ Nat.toDigits 16 n := by
  induction n using Nat.base_induction 16 (by decide) with
  | single k hk =>
    rw [Nat.toDigits_of_lt_base hk, List.mem_singleton]
    exact hc k hk
  | digit m k hk hm ih =>
    rw [← Nat.toDigits_append_toDigits (by decide) hm hk, Nat.toDigits_of_lt_base hk,
      List.mem_append, List.mem_singleton, not_or]
    exact ⟨ih, hc k hk⟩

theorem codePoint?_toNat (c : Char) : codePoint? c.toNat = some c := by
  have hvalid : c.toNat.isValidChar := c.valid
  rw [codePoint?, if_pos hvalid, Char.ofNat_toNat]

/-! ## Escapes -/

/-- What a character after a backslash stands for. -/
def escaped? : Char → Option Char
  | '0' => some '\x00'
  | 't' => some '\t'
  | 'r' => some '\r'
  | 'n' => some '\n'
  | '\\' => some '\\'
  | '"' => some '"'
  | '\'' => some '\''
  | _ => none

/-- A code point in hexadecimal digits between braces, and the text after it. -/
def bracedCodePoint : List Char → Option (Char × List Char)
  | '{' :: rest =>
    (cutAt '}' rest).bind fun cut ↦ ((hexFrom? 0 cut.1).bind codePoint?).map (·, cut.2)
  | _ => none

/-- The character that the front of a literal stands for, and the text after it. -/
def unescape : List Char → Option (Char × List Char)
  | '\\' :: 'u' :: rest => bracedCodePoint rest
  | '\\' :: c :: rest => (escaped? c).map (·, rest)
  | ['\\'] => none
  | c :: rest => some (c, rest)
  | [] => none

theorem length_bracedCodePoint {cs rest : List Char} {c : Char}
    (h : bracedCodePoint cs = some (c, rest)) : rest.length < cs.length := by
  unfold bracedCodePoint at h
  split at h
  · next after =>
    obtain ⟨⟨digits, later⟩, hcut, h⟩ := Option.bind_eq_some_iff.1 h
    obtain ⟨c', -, hpair⟩ := Option.map_eq_some_iff.1 h
    obtain ⟨rfl, rfl⟩ := Prod.mk.inj hpair
    exact Nat.lt_succ_of_lt (Template.length_of_cutAt hcut)
  · cases h

theorem length_unescape {cs rest : List Char} {c : Char} (h : unescape cs = some (c, rest)) :
    rest.length < cs.length := by
  unfold unescape at h
  split at h
  · exact Nat.lt_succ_of_lt (Nat.lt_succ_of_lt (length_bracedCodePoint h))
  · obtain ⟨c', -, hpair⟩ := Option.map_eq_some_iff.1 h
    obtain ⟨rfl, rfl⟩ := Prod.mk.inj hpair
    exact Nat.lt_succ_of_lt (Nat.lt_succ_self _)
  · cases h
  · obtain ⟨rfl, rfl⟩ := Prod.mk.inj (Option.some.inj h)
    simp
  · cases h

theorem unescape_self {c : Char} (hc : c ≠ '\\') (rest : List Char) :
    unescape (c :: rest) = some (c, rest) := by
  rw [unescape] <;> simp [hc]

theorem unescape_escapeByNumber (c : Char) (rest : List Char) :
    unescape (escapeByNumber c ++ rest) = some (c, rest) := by
  have hcut := cutAt_append (not_mem_toDigits (c := '\x7d') (by decide) c.toNat) rest
  simp [escapeByNumber, unescape, bracedCodePoint, hcut, hexFrom?_toDigits, codePoint?_toNat]

section Escapes

variable (plain : Char → Bool)

/-- The written form of a character is read back, whatever follows. -/
theorem unescape_escape (c : Char) (rest : List Char) :
    unescape (escape plain '"' c ++ rest) = some (c, rest) := by
  fun_cases escape plain '"' c with
  | case1 h => exact h ▸ rfl
  | case2 _ h => exact h ▸ rfl
  | case3 _ _ h => exact h ▸ rfl
  | case4 _ _ _ h => exact h ▸ rfl
  | case5 _ _ _ _ h =>
    rcases h with rfl | rfl
    · rfl
    · rfl
  | case6 _ _ _ _ h => exact unescape_self (not_or.1 h).1 rest
  | case7 => exact unescape_escapeByNumber c rest

/-- The written form of a character does not end a literal. -/
theorem exists_cons_of_escape (c : Char) :
    ∃ d ds, escape plain '"' c = d :: ds ∧ d ≠ '"' := by
  fun_cases escape plain '"' c with
  | case6 _ _ _ _ h => exact ⟨c, [], rfl, (not_or.1 h).2⟩
  | _ => exact ⟨'\\', _, rfl, by decide⟩

theorem feed_not_mem_escape (c : Char) : '\n' ∉ escape plain '"' c := by
  fun_cases escape plain '"' c with
  | case5 _ _ _ hfeed _ => simp [Ne.symm hfeed]
  | case6 _ _ _ hfeed _ => simp [Ne.symm hfeed]
  | case7 => simp [escapeByNumber, not_mem_toDigits (c := '\n') (by decide)]
  | _ => decide

/-- A quoted text stays on its line. -/
theorem feed_not_mem_quoteWith (s : String) : '\n' ∉ (quoteWith plain s).toList := by
  simp [quoteWith, quote, feed_not_mem_escape]

end Escapes

/-! ## Literals -/

/-- The text up to the quote that ends a literal, and the text after that quote. -/
def literalTail (cs : List Char) : Option (List Char × List Char) :=
  match cs with
  | '"' :: rest => some ([], rest)
  | cs =>
    match _h : unescape cs with
    | some (c, rest) => (literalTail rest).map fun r ↦ (c :: r.1, r.2)
    | none => none
termination_by cs.length
decreasing_by exact length_unescape _h

/-- A literal at the front of a text, and the text after it. -/
def literal? : List Char → Option (String × List Char)
  | '"' :: rest => (literalTail rest).map fun r ↦ (String.ofList r.1, r.2)
  | _ => none

theorem length_literalTail {cs text rest : List Char} (h : literalTail cs = some (text, rest)) :
    rest.length < cs.length := by
  fun_induction literalTail cs generalizing text with
  | case1 after =>
    obtain ⟨-, rfl⟩ := Prod.mk.inj (Option.some.inj h)
    exact Nat.lt_succ_self _
  | case2 cs _ c after hunescape ih =>
    obtain ⟨⟨later, final⟩, htail, hpair⟩ := Option.map_eq_some_iff.1 h
    obtain ⟨-, rfl⟩ := Prod.mk.inj hpair
    calc final.length
        < after.length := ih htail
      _ < cs.length := length_unescape hunescape
  | case3 => cases h

theorem length_literal? {cs rest : List Char} {s : String} (h : literal? cs = some (s, rest)) :
    rest.length < cs.length := by
  unfold literal? at h
  split at h
  · obtain ⟨⟨text, after⟩, htail, hpair⟩ := Option.map_eq_some_iff.1 h
    obtain ⟨-, rfl⟩ := Prod.mk.inj hpair
    exact Nat.lt_succ_of_lt (length_literalTail htail)
  · cases h

theorem literalTail_of_unescape {c d : Char} {ds rest : List Char} (hd : d ≠ '"')
    (h : unescape (d :: ds) = some (c, rest)) :
    literalTail (d :: ds) = (literalTail rest).map fun r ↦ (c :: r.1, r.2) := by
  rw [literalTail]
  · split
    · next c' rest' h' =>
      obtain ⟨rfl, rfl⟩ := Prod.mk.inj (Option.some.inj (h.symm.trans h'))
      rfl
    · next h' => cases h.symm.trans h'
  · intro after heq
    exact hd (List.cons.inj heq).1

theorem literalTail_escape (plain : Char → Bool) (cs rest : List Char) :
    literalTail (cs.flatMap (escape plain '"') ++ '"' :: rest) = some (cs, rest) := by
  induction cs with
  | nil => rw [List.flatMap_nil, List.nil_append, literalTail]
  | cons c cs ih =>
    obtain ⟨d, ds, hescape, hd⟩ := exists_cons_of_escape plain c
    have hunescape := unescape_escape plain c (cs.flatMap (escape plain '"') ++ '"' :: rest)
    rw [hescape, List.cons_append] at hunescape
    rw [List.flatMap_cons, List.append_assoc, hescape, List.cons_append,
      literalTail_of_unescape hd hunescape, ih]
    rfl

theorem literal?_quoteWith (plain : Char → Bool) (s : String) (rest : List Char) :
    literal? ((quoteWith plain s).toList ++ rest) = some (s, rest) := by
  have htext : (quoteWith plain s).toList ++ rest =
      '"' :: (s.toList.flatMap (escape plain '"') ++ '"' :: rest) := by
    simp [quoteWith, quote]
  rw [htext, literal?, literalTail_escape]
  simp

/-! ## Lists of literals -/

/-- The literals up to the bracket that closes their list, with commas between them, and the text
after the bracket. -/
def literals? (cs : List Char) : Option (List String × List Char) :=
  match _h : literal? cs with
  | some (s, ']' :: rest) => some ([s], rest)
  | some (s, ',' :: ' ' :: rest) => (literals? rest).map fun r ↦ (s :: r.1, r.2)
  | some _ => none
  | none =>
    match cs with
    | ']' :: rest => some ([], rest)
    | _ => none
termination_by cs.length
decreasing_by
  have hlength := length_literal? _h
  simp only [List.length_cons] at hlength
  omega

theorem literals?_last {cs rest : List Char} {s : String}
    (h : literal? cs = some (s, ']' :: rest)) : literals? cs = some ([s], rest) := by
  rw [literals?]
  split
  all_goals simp_all

theorem literals?_next {cs rest : List Char} {s : String}
    (h : literal? cs = some (s, ',' :: ' ' :: rest)) :
    literals? cs = (literals? rest).map fun r ↦ (s :: r.1, r.2) := by
  rw [literals?]
  split
  all_goals simp_all

theorem literals?_nil (rest : List Char) : literals? (']' :: rest) = some ([], rest) := by
  have hliteral : literal? (']' :: rest) = none := rfl
  rw [literals?]
  split
  all_goals simp_all

/-- A list of quoted texts is read back, whatever follows. -/
theorem literals?_joinWith (plain : Char → Bool) (names : List String) (rest : List Char) :
    literals? ((joinWith ", " (names.map (quoteWith plain))).toList ++ ']' :: rest) =
      some (names, rest) := by
  induction names with
  | nil => exact literals?_nil rest
  | cons s names ih =>
    cases names with
    | nil => exact literals?_last (literal?_quoteWith plain s _)
    | cons next names =>
      have htext :
          (joinWith ", " ((s :: next :: names).map (quoteWith plain))).toList ++ ']' :: rest =
            (quoteWith plain s).toList ++
              ',' :: ' ' :: ((joinWith ", " ((next :: names).map (quoteWith plain))).toList ++
                ']' :: rest) := by
        simp [joinWith]
      rw [htext, literals?_next (literal?_quoteWith plain s _), ih]
      rfl

theorem feed_not_mem_joinWith (plain : Char → Bool) (names : List String) :
    '\n' ∉ (joinWith ", " (names.map (quoteWith plain))).toList := by
  cases names with
  | nil => simp [joinWith]
  | cons s names =>
    rw [List.map_cons, toList_joinWith_cons]
    simp [feed_not_mem_quoteWith]

end ParserGenerator.Text
