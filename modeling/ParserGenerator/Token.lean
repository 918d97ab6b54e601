import ParserGenerator.Text.Position

/-!
# Tokens of a grammar file

A token carries what its text says beyond its kind, so that the text of a token is a function of
the token.
-/

namespace ParserGenerator

inductive Keyword where
  | token
  | left
  | right
  | nonassoc
  | prec
  | start
  | type
  | union
deriving DecidableEq, Inhabited

namespace Keyword

def text : Keyword → String
  | .token => "%token"
  | .left => "%left"
  | .right => "%right"
  | .nonassoc => "%nonassoc"
  | .prec => "%prec"
  | .start => "%start"
  | .type => "%type"
  | .union => "%union"

def all : List Keyword := [.token, .left, .right, .nonassoc, .prec, .start, .type, .union]

end Keyword

inductive Punctuation where
  | semicolon
  | comma
  | less
  | greater
  | bar
  | colon
  | openBracket
  | closeBracket
  | openParen
  | closeParen
deriving DecidableEq, Inhabited

namespace Punctuation

def char : Punctuation → Char
  | .semicolon => ';'
  | .comma => ','
  | .less => '<'
  | .greater => '>'
  | .bar => '|'
  | .colon => ':'
  | .openBracket => '['
  | .closeBracket => ']'
  | .openParen => '('
  | .closeParen => ')'

def ofChar? : Char → Option Punctuation
  | ';' => some .semicolon
  | ',' => some .comma
  | '<' => some .less
  | '>' => some .greater
  | '|' => some .bar
  | ':' => some .colon
  | '[' => some .openBracket
  | ']' => some .closeBracket
  | '(' => some .openParen
  | ')' => some .closeParen
  | _ => none

theorem char_of_ofChar? {c : Char} {p : Punctuation} (h : ofChar? c = some p) : p.char = c := by
  unfold ofChar? at h
  split at h <;> simp_all <;> subst h <;> rfl

end Punctuation

inductive Token where
  /-- A literal block `%{ ... %}`, without its delimiters. -/
  | literal (body : String)
  /-- The section divider `%%`, with the rest of the input if it closes the last section. -/
  | divider (tail : Option String)
  | keyword (k : Keyword)
  /-- An action block with its outer braces. -/
  | code (text : String)
  | identifier (name : String)
  /-- A quoted literal with its quotes. -/
  | quoted (text : String)
  | number (digits : String)
  | punctuation (p : Punctuation)
deriving DecidableEq, Inhabited

namespace Token

/-- The name of the token's kind in messages. -/
def kind : Token → String
  | .literal _ => "LITERAL"
  | .divider _ => "SECTION"
  | .keyword k => k.text
  | .code _ => "CODE"
  | .identifier _ => "ID"
  | .quoted _ => "QLITERAL"
  | .number _ => "NUMBER"
  | .punctuation p => String.ofList ['\'', p.char, '\'']

/-- The text of the source that the token stands for. -/
def text : Token → String
  | .literal body => "%\x7b" ++ body ++ "%\x7d"
  | .divider none => "%%"
  | .divider (some tail) => "%%" ++ tail
  | .keyword k => k.text
  | .code text => text
  | .identifier name => name
  | .quoted text => text
  | .number digits => digits
  | .punctuation p => String.singleton p.char

/-- What the token carries beyond its kind. -/
def payload? : Token → Option String
  | .literal body => some body
  | .divider tail => tail
  | .code text => some text
  | .identifier name => some name
  | .quoted text => some text
  | .number digits => some digits
  | .keyword _ | .punctuation _ => none

end Token

/-- A token and the place where its text starts. -/
structure Lexeme where
  token : Token
  pos : Text.Position
deriving DecidableEq, Inhabited

end ParserGenerator
