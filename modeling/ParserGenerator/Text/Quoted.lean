import ParserGenerator.Text.Printable

/-!
# Quoted texts

A text is quoted between two quote marks. The quote mark in use and the backslash are written after
a backslash, four control characters have letters of their own, and every other character that is
not plain is written by its code point in hexadecimal digits. Which characters are plain is a
parameter; by default they are the ones with a visible form.
-/

namespace ParserGenerator.Text

/-- A code point in lowercase hexadecimal digits between braces, as in `\u{7f}`. -/
def escapeByNumber (c : Char) : List Char :=
  '\\' :: 'u' :: '{' :: Nat.toDigits 16 c.toNat ++ ['}']

/-- The written form of one character between two occurrences of `mark`. -/
def escape (plain : Char → Bool) (mark c : Char) : List Char :=
  if c = '\x00' then ['\\', '0']
  else if c = '\t' then ['\\', 't']
  else if c = '\r' then ['\\', 'r']
  else if c = '\n' then ['\\', 'n']
  else if c = '\\' ∨ c = mark then ['\\', c]
  else if plain c then [c]
  else escapeByNumber c

def quote (plain : Char → Bool) (mark : Char) (cs : List Char) : List Char :=
  mark :: cs.flatMap (escape plain mark) ++ [mark]

def quoteWith (plain : Char → Bool) (s : String) : String :=
  String.ofList (quote plain '"' s.toList)

def quoteString (s : String) : String := quoteWith isPrintable s

def quoteChar (c : Char) : String := String.ofList (quote isPrintable '\'' [c])

end ParserGenerator.Text
