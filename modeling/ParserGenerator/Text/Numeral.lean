/-!
# Numerals

Decimal numerals with an optional sign, read into a bounded range.
-/

namespace ParserGenerator.Text

/-- The value of decimal digits, if there is at least one and nothing else. -/
def digits? (cs : List Char) : Option Nat :=
  if !cs.isEmpty && cs.all Char.isDigit then
    some (cs.foldl (fun n c ↦ 10 * n + (c.toNat - '0'.toNat)) 0)
  else none

/-- The integers of 64 bits. -/
def int64? (n : Int) : Option Int :=
  if -0x8000000000000000 ≤ n ∧ n < 0x8000000000000000 then some n else none

/-- A numeral of 64 bits, with an optional sign. -/
def readInt64? : List Char → Option Int
  | '+' :: rest => (digits? rest).bind fun n ↦ int64? n
  | '-' :: rest => (digits? rest).bind fun n ↦ int64? (-n)
  | cs => (digits? cs).bind fun n ↦ int64? n

/-- A numeral of 32 bits without a minus sign. -/
def readUInt32? (cs : List Char) : Option Nat :=
  let unsigned := match cs with
    | '+' :: rest => rest
    | _ => cs
  (digits? unsigned).filter (· < UInt32.size)

end ParserGenerator.Text
