import Mathlib.Data.Nat.Digits.Defs
import ParserGenerator.Text.Numeral

/-!
# Reading numerals

Decimal digits are read as the number that they write, however many zeros lead, and a number that is
written in decimal digits is read back.
-/

namespace ParserGenerator.Text

theorem digits?_of_isDigit {cs : List Char} (hne : cs ≠ []) (h : ∀ c ∈ cs, c.isDigit = true) :
    digits? cs = some (Nat.ofDigitChars 10 cs 0) := by
  have hdigits : (!cs.isEmpty && cs.all Char.isDigit) = true := by
    simpa [hne] using h
  rw [digits?, if_pos hdigits, Nat.ofDigitChars_eq_foldl]

theorem readInt64?_of_isDigit {cs : List Char} (hne : cs ≠ []) (h : ∀ c ∈ cs, c.isDigit = true) :
    readInt64? cs = int64? (Nat.ofDigitChars 10 cs 0) := by
  have hdigits := digits?_of_isDigit hne h
  unfold readInt64?
  split
  · exact absurd (h '+' List.mem_cons_self) (by decide)
  · exact absurd (h '-' List.mem_cons_self) (by decide)
  · rw [hdigits, Option.bind_some]

theorem readUInt32?_toString (n : UInt32) : readUInt32? (toString n.toNat).toList = some n.toNat := by
  have hisDigit : ∀ c ∈ Nat.toDigits 10 n.toNat, c.isDigit = true :=
    fun c ↦ Nat.isDigit_of_mem_toDigits (by decide) (by decide)
  have hdigits := digits?_of_isDigit Nat.toDigits_ne_nil hisDigit
  rw [Nat.ofDigitChars_ten_toDigits] at hdigits
  rw [Nat.toString_eq_ofList_toDigits, String.toList_ofList, readUInt32?]
  · rw [hdigits]
    simpa using n.toNat_lt
  · intro rest hsign
    exact absurd (hisDigit '+' (hsign ▸ List.mem_cons_self)) (by decide)

end ParserGenerator.Text
