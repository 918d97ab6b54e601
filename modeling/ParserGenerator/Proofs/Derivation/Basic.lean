import ParserGenerator.Grammar.Parser

/-!
# Derivations of grammar files

The language of grammar files as a family of trees, one type for each nonterminal. The leaves of a
tree, read from left to right, are its `tokens`; a token list belongs to the language if it is the
leaves of a `File`. Optional signs are flags of their node, so a tree fixes every token of its text.

A tree says what its text means without running the reader: `File.grammar` collects the start
symbol, the names, the families, the rules and the copied code from the nodes of the tree.
-/

namespace ParserGenerator.Derivation

open Grammar (Declaration)

/-- A sign that may be left out. -/
def optionalSign (p : Punctuation) (present : Bool) : List Token :=
  if present then [.punctuation p] else []

@[simp] theorem optionalSign_false (p : Punctuation) : optionalSign p false = [] := rfl

/-! ## Names in order -/

theorem nodup_eraseDups : (names : List String) → names.eraseDups.Nodup
  | [] => List.nodup_nil
  | name :: names => by
    rw [List.eraseDups_cons, List.nodup_cons]
    refine ⟨?_, nodup_eraseDups (names.filter fun other ↦ !other == name)⟩
    simp [List.mem_eraseDups]
termination_by names => names.length
decreasing_by exact Nat.lt_succ_of_le (List.length_filter_le ..)

/-- The first occurrences of names, in order. -/
def firstOccurrences (names : List String) : NameSet := ⟨names.eraseDups, nodup_eraseDups names⟩

/-! ## Definitions -/

/-- The name of a token: `ID | QLITERAL`. -/
inductive TokenName where
  | identifier (name : String)
  | quoted (text : String)
deriving DecidableEq

namespace TokenName

def token : TokenName → Token
  | .identifier name => .identifier name
  | .quoted text => .quoted text

def text : TokenName → String
  | .identifier name => name
  | .quoted text => text

end TokenName

/-- `tokenid := (ID | QLITERAL) NUMBER?` -/
structure TokenId where
  name : TokenName
  number : Option String
deriving DecidableEq

def TokenId.tokens (t : TokenId) : List Token := t.name.token :: t.number.toList.map .number

/-- `','? tokenid` -/
structure NextTokenId where
  comma : Bool
  id : TokenId
deriving DecidableEq

def NextTokenId.tokens (t : NextTokenId) : List Token := optionalSign .comma t.comma ++ t.id.tokens

/-- `','? ID` -/
structure NextSymbol where
  comma : Bool
  name : String
deriving DecidableEq

def NextSymbol.tokens (s : NextSymbol) : List Token :=
  optionalSign .comma s.comma ++ [.identifier s.name]

/-- `'<' ID '>'` -/
def tagTokens (tag : String) : List Token :=
  [.punctuation .less, .identifier tag, .punctuation .greater]

/-- The keyword that opens a declaration of token names. -/
def keywordOf : Declaration → Keyword
  | .tokens => .token
  | .precedence .left => .left
  | .precedence .right => .right
  | .precedence .nonassoc => .nonassoc

/-- A definition of the first section. -/
inductive Directive where
  /-- `LITERAL` -/
  | literal (body : String)
  /-- `START ID` -/
  | start (name : String)
  /-- `(TOKEN | LEFT | RIGHT | NONASSOC) ('<' ID '>')? tokenid (','? tokenid)* ';'?` -/
  | declaration (d : Declaration) (tag : Option String) (first : TokenId) (more : List NextTokenId)
    (semicolon : Bool)
  /-- `TYPE '<' ID '>' ID (','? ID)* ','? ';'?` -/
  | type (tag first : String) (more : List NextSymbol) (comma semicolon : Bool)
  /-- `UNION CODE ';'?` -/
  | union (code : String) (semicolon : Bool)
deriving DecidableEq

namespace Directive

def tokens : Directive → List Token
  | .literal body => [.literal body]
  | .start name => [.keyword .start, .identifier name]
  | .declaration d tag first more semicolon =>
    .keyword (keywordOf d) :: tag.toList.flatMap tagTokens ++ first.tokens ++
      more.flatMap NextTokenId.tokens ++ optionalSign .semicolon semicolon
  | .type tag first more comma semicolon =>
    .keyword .type :: tagTokens tag ++ [.identifier first] ++ more.flatMap NextSymbol.tokens ++
      optionalSign .comma comma ++ optionalSign .semicolon semicolon
  | .union code semicolon => [.keyword .union, .code code] ++ optionalSign .semicolon semicolon

def startName? : Directive → Option String
  | .start name => some name
  | _ => none

def literal? : Directive → Option String
  | .literal body => some body
  | _ => none

/-- The names that a declaration lists. -/
def listed (first : TokenId) (more : List NextTokenId) : List String :=
  first.name.text :: more.map (·.id.name.text)

/-- The names that are declared as tokens. -/
def tokenNames : Directive → List String
  | .declaration .tokens _ first more _ => listed first more
  | _ => []

/-- The precedence group that is declared. -/
def group? : Directive → Option PrecedenceGroup
  | .declaration (.precedence assoc) _ first more _ => some ⟨assoc, listed first more⟩
  | _ => none

end Directive

/-! ## Rules -/

/-- `ref := ID | '[' ref ']' | '<' ref '>' | '(' ref ')'` -/
inductive Reference where
  | plain (name : String)
  | wrapped (kind : FamilyKind) (inner : Reference)
deriving DecidableEq

/-- The sign that opens a shorthand. -/
def openSign : FamilyKind → Token
  | .optional => .punctuation .openBracket
  | .list => .punctuation .less
  | .string => .punctuation .openParen

/-- The sign that closes a shorthand. -/
def closeSign : FamilyKind → Token
  | .optional => .punctuation .closeBracket
  | .list => .punctuation .greater
  | .string => .punctuation .closeParen

namespace Reference

def tokens : Reference → List Token
  | .plain name => [.identifier name]
  | .wrapped kind inner => openSign kind :: inner.tokens ++ [closeSign kind]

/-- The symbol that a reference stands for. -/
def symbol : Reference → String
  | .plain name => name
  | .wrapped .optional inner => inner.symbol ++ "_opt"
  | .wrapped .list inner => inner.symbol ++ "_list"
  | .wrapped .string inner => inner.symbol ++ "_string"

theorem symbol_wrapped (kind : FamilyKind) (inner : Reference) :
    (wrapped kind inner).symbol = kind.derived inner.symbol := by
  cases kind <;> rfl

/-- The families that a reference needs, inner ones first. -/
def bases : Reference → List (FamilyKind × String)
  | .plain _ => []
  | .wrapped kind inner => inner.bases ++ [(kind, inner.symbol)]

end Reference

/-- An item of an alternative: `CODE | PREC | QLITERAL | ref`. -/
inductive Element where
  | action (text : String)
  | prec
  | quoted (text : String)
  | reference (r : Reference)
deriving DecidableEq

namespace Element

def tokens : Element → List Token
  | .action text => [.code text]
  | .prec => [.keyword .prec]
  | .quoted text => [.quoted text]
  | .reference r => r.tokens

/-- The symbol of an item in a production; actions have none. -/
def symbol? : Element → Option String
  | .action _ => none
  | .prec => some Symbols.precMark
  | .quoted text => some text
  | .reference r => some r.symbol

def bases : Element → List (FamilyKind × String)
  | .reference r => r.bases
  | _ => []

end Element

/-- The symbols of an alternative. -/
def symbolsOf (alt : List Element) : List String := alt.filterMap Element.symbol?

/-- The code of an alternative: the body of its last item, if that is an action. -/
def codeOf (alt : List Element) : String :=
  match alt.getLast? with
  | some (.action text) => String.ofList (Action.body text.toList)
  | _ => ""

/-- `rule := ID ':' alt ('|' alt)* ';'` -/
structure Clause where
  lhs : String
  first : List Element
  more : List (List Element)
deriving DecidableEq

namespace Clause

def alternatives (c : Clause) : List (List Element) := c.first :: c.more

def tokens (c : Clause) : List Token :=
  .identifier c.lhs :: .punctuation .colon :: c.first.flatMap Element.tokens ++
    c.more.flatMap (fun alt ↦ .punctuation .bar :: alt.flatMap Element.tokens) ++
    [.punctuation .semicolon]

/-- The name of an alternative: the left-hand side, with a number if it is one of several. -/
def nameOf (c : Clause) (index : Nat) : String :=
  if c.more = [] then c.lhs else s!"{c.lhs}_{index + 1}"

def ruleOf (c : Clause) (index : Nat) (alt : List Element) : Rule :=
  { name := c.nameOf index
    production := c.lhs ++ " : " ++ Text.joinWith " " (symbolsOf alt)
    code := codeOf alt }

/-- One rule for each alternative. -/
def rules (c : Clause) : List Rule := c.alternatives.mapIdx c.ruleOf

def bases (c : Clause) : List (FamilyKind × String) :=
  c.alternatives.flatMap fun alt ↦ alt.flatMap Element.bases

end Clause

/-! ## Files -/

/-- `definition* SECTION` -/
structure Header where
  directives : List Directive
  divider : Option String
deriving DecidableEq

def Header.tokens (h : Header) : List Token :=
  h.directives.flatMap Directive.tokens ++ [.divider h.divider]

/-- `grammar := (definition* SECTION)? rule* SECTION`; a file without the first section starts with
a rule. -/
structure File where
  header : Option Header
  clauses : List Clause
  tail : Option String
  starts_with_rule : header = none → clauses ≠ []

namespace File

def tokens (f : File) : List Token :=
  f.header.toList.flatMap Header.tokens ++ f.clauses.flatMap Clause.tokens ++ [.divider f.tail]

def directives (f : File) : List Directive := (f.header.map Header.directives).getD []

/-- The families that the rules need, in the order of the text. -/
def bases (f : File) : List (FamilyKind × String) := f.clauses.flatMap Clause.bases

/-- The base symbols of one kind of family. -/
def basesOf (f : File) (kind : FamilyKind) : List String :=
  (f.bases.filter (·.1 = kind)).map (·.2)

/-- The start symbol: the last one that is declared, else the first rule, else none. -/
def start (f : File) : String :=
  match (f.directives.filterMap Directive.startName?).getLast?, f.clauses.head? with
  | some name, _ => name
  | none, some clause => clause.lhs
  | none, none => ""

/-- The grammar that a file denotes. -/
def grammar (f : File) : Grammar :=
  { start := f.start
    precedence := f.directives.filterMap Directive.group?
    tokens := firstOccurrences (f.directives.flatMap Directive.tokenNames)
    families :=
      { optional := firstOccurrences (f.basesOf .optional)
        list := firstOccurrences (f.basesOf .list)
        string := firstOccurrences (f.basesOf .string) }
    rules := f.clauses.flatMap Clause.rules
    prologue := f.directives.filterMap Directive.literal?
    epilogue := f.tail.filter fun text ↦ !Text.isBlankText text.toList }

end File

end ParserGenerator.Derivation
