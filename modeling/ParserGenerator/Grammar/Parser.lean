import ParserGenerator.Grammar.Alternative

/-!
# Reading grammar files

The reader of a grammar file takes one lexeme at a time. What it may meet next is its control
state, so an unexpected lexeme and an unexpected end of input are reported with the same
expectation. A file consists of definitions up to a divider and of rules up to a second divider,
which takes the rest of the file; the first part may be missing if the file starts with a rule.
-/

namespace ParserGenerator.Grammar

open Lexer

/-- What a grammar file needs at the place of an error. -/
inductive Expectation where
  | definition
  | startSymbol
  | tagOpen
  | typeTag
  | tagClose
  | tokenName
  | symbolName
  | block
  | rule
  | colon
  | part
  /-- The closing sign of a shorthand. -/
  | closing (kind : FamilyKind)
  | endOfInput
deriving DecidableEq

def Expectation.describe : Expectation → String
  | .definition => "a definition or `%%'"
  | .startSymbol => "a start symbol"
  | .tagOpen => "`<'"
  | .typeTag => "a type tag"
  | .tagClose => "`>'"
  | .tokenName => "a token name"
  | .symbolName => "a symbol name"
  | .block => "a `\x7b ... \x7d' block"
  | .rule => "a rule or `%%'"
  | .colon => "`:'"
  | .part => "a symbol, an action, `|' or `;'"
  | .closing .optional => "`]'"
  | .closing .list => "`>'"
  | .closing .string => "`)'"
  | .endOfInput => "end of input"

/-- What a declaration of token names declares. -/
inductive Declaration where
  | tokens
  | precedence (assoc : Assoc)
deriving DecidableEq

/-- A rule whose end has not been reached: the finished alternatives and the current one. -/
structure Draft where
  lhs : String
  finished : List Alternative
  current : Alternative
deriving DecidableEq

namespace Draft

def add (d : Draft) (part : Part) : Draft := { d with current := d.current ++ [part] }

def nextAlternative (d : Draft) : Draft :=
  { d with finished := d.finished ++ [d.current], current := [] }

def alternatives (d : Draft) : List Alternative := d.finished ++ [d.current]

end Draft

/-- The control state of the reader. -/
inductive Control where
  /-- Nothing has been read. -/
  | opening
  | definitions
  | startSymbol
  /-- After the keyword of a declaration. -/
  | declaration (d : Declaration)
  | declarationTag (d : Declaration)
  | declarationTagEnd (d : Declaration)
  /-- A token name has to follow. -/
  | tokenName (d : Declaration) (names : List String)
  /-- After a token name, with or without a number. -/
  | tokenNames (d : Declaration) (names : List String) (numbered : Bool)
  | typeKeyword
  | typeTag
  | typeTagEnd
  | symbolName
  /-- After a symbol name or the comma after it. -/
  | symbolNames (comma : Bool)
  | unionKeyword
  | unionBlock
  | rules
  | ruleName (lhs : String)
  | parts (d : Draft)
  /-- Inside shorthands, innermost first, before the wrapped symbol. -/
  | wrapped (d : Draft) (kinds : List FamilyKind)
  /-- Inside shorthands, innermost first, after the wrapped symbol. -/
  | unwrapping (d : Draft) (kind : FamilyKind) (outer : List FamilyKind) (symbol : String)
  | finished
deriving DecidableEq

namespace Control

/-- The rule section has started, so that the next divider closes the last section. -/
def closing : Control → Bool
  | .rules | .ruleName _ | .parts _ | .wrapped _ _ | .unwrapping _ _ _ _ | .finished => true
  | _ => false

def expects : Control → Expectation
  | .opening | .definitions | .tokenNames _ _ _ | .symbolNames _ | .unionBlock => .definition
  | .startSymbol => .startSymbol
  | .declaration _ | .tokenName _ _ => .tokenName
  | .declarationTag _ | .typeTag => .typeTag
  | .declarationTagEnd _ | .typeTagEnd => .tagClose
  | .typeKeyword => .tagOpen
  | .symbolName => .symbolName
  | .unionKeyword => .block
  | .rules => .rule
  | .ruleName _ => .colon
  | .parts _ | .wrapped _ _ => .part
  | .unwrapping _ kind _ _ => .closing kind
  | .finished => .endOfInput

end Control

/-- The state of the reader: its control state, the grammar so far, the left-hand side of the first
rule, and what has been reported. -/
structure State where
  control : Control := .opening
  grammar : Grammar := {}
  firstRule : Option String := none
  events : List Event := []

namespace State

def goto (s : State) (control : Control) : State := { s with control }

/-- Records the names of a finished declaration. -/
def declare (s : State) (d : Declaration) (names : List String) : State :=
  match d with
  | .tokens => { s with grammar := { s.grammar with tokens := s.grammar.tokens.insertAll names } }
  | .precedence assoc =>
    { s with
      grammar := { s.grammar with precedence := s.grammar.precedence ++ [⟨assoc, names⟩] } }

/-- A lexeme between two definitions. -/
def definition (s : State) : Token → Option State
  | .divider _ => some (s.goto .rules)
  | .literal body =>
    some { s with
      control := .definitions
      grammar := { s.grammar with prologue := s.grammar.prologue ++ [body] } }
  | .keyword .start => some (s.goto .startSymbol)
  | .keyword .token => some (s.goto (.declaration .tokens))
  | .keyword .left => some (s.goto (.declaration (.precedence .left)))
  | .keyword .right => some (s.goto (.declaration (.precedence .right)))
  | .keyword .nonassoc => some (s.goto (.declaration (.precedence .nonassoc)))
  | .keyword .type => some (s.goto .typeKeyword)
  | .keyword .union => some (s.goto .unionKeyword)
  | _ => none

/-- The name of a token in a declaration. -/
def tokenName? : Token → Option String
  | .identifier name => some name
  | .quoted text => some text
  | _ => none

/-- A token name of a declaration that has the given names already. -/
def tokenName (s : State) (d : Declaration) (names : List String) (t : Token) : Option State :=
  (tokenName? t).map fun name ↦ s.goto (.tokenNames d (names ++ [name]) false)

/-- A lexeme after the token names of a declaration. -/
def tokenNames (s : State) (d : Declaration) (names : List String) (numbered : Bool) (t : Token) :
    Option State :=
  match t with
  | .number _ =>
    if numbered then (s.declare d names).definition t
    else some (s.goto (.tokenNames d names true))
  | .punctuation .comma => some (s.goto (.tokenName d names))
  | .identifier name | .quoted name => some (s.goto (.tokenNames d (names ++ [name]) false))
  | .punctuation .semicolon => some ((s.declare d names).goto .definitions)
  | _ => (s.declare d names).definition t

/-- A lexeme after the symbol names of a type declaration. -/
def symbolNames (s : State) (comma : Bool) (t : Token) : Option State :=
  match t with
  | .identifier _ => some (s.goto (.symbolNames false))
  | .punctuation .semicolon => some (s.goto .definitions)
  | .punctuation .comma => if comma then s.definition t else some (s.goto (.symbolNames true))
  | _ => s.definition t

/-- The epilogue is the rest of the file unless that is blank. -/
def epilogue? (tail : Option String) : Option String :=
  tail.filter fun text ↦ !Text.isBlankText text.toList

/-- A lexeme between two rules. -/
def rule (s : State) : Token → Option State
  | .identifier lhs => some (s.goto (.ruleName lhs))
  | .divider tail =>
    some { s with control := .finished, grammar := { s.grammar with epilogue := epilogue? tail } }
  | _ => none

/-- The shorthand that a sign opens. -/
def opener? : Token → Option FamilyKind
  | .punctuation .openBracket => some .optional
  | .punctuation .less => some .list
  | .punctuation .openParen => some .string
  | _ => none

/-- The sign that closes a shorthand. -/
def closer : FamilyKind → Token
  | .optional => .punctuation .closeBracket
  | .list => .punctuation .greater
  | .string => .punctuation .closeParen

/-- A rule has ended. -/
def endRule (s : State) (d : Draft) : State :=
  { control := .rules
    grammar := s.grammar.addRule d.lhs d.alternatives
    firstRule := s.firstRule <|> some d.lhs
    events := s.events ++ addRuleEvents d.lhs d.alternatives }

/-- A lexeme in an alternative. -/
def part (s : State) (d : Draft) (lx : Lexeme) : Option State :=
  match lx.token with
  | .punctuation .bar => some (s.goto (.parts d.nextAlternative))
  | .punctuation .semicolon => some (s.endRule d)
  | .code text => some (s.goto (.parts (d.add (.action text lx.pos.line))))
  | .keyword .prec => some (s.goto (.parts (d.add (.symbol Symbols.precMark))))
  | .quoted text => some (s.goto (.parts (d.add (.symbol text))))
  | .identifier name => some (s.goto (.parts (d.add (.symbol name))))
  | t => (opener? t).map fun kind ↦ s.goto (.wrapped d [kind])

/-- The symbol of a reference is known; the shorthands around it, innermost first, are still to be
closed. -/
def reference (s : State) (d : Draft) (kinds : List FamilyKind) (symbol : String) : State :=
  match kinds with
  | [] => s.goto (.parts (d.add (.symbol symbol)))
  | kind :: outer => s.goto (.unwrapping d kind outer symbol)

/-- A lexeme inside shorthands, before the wrapped symbol. -/
def wrapped (s : State) (d : Draft) (kinds : List FamilyKind) (t : Token) : Option State :=
  match t with
  | .identifier name => some (s.reference d kinds name)
  | _ => (opener? t).map fun kind ↦ s.goto (.wrapped d (kind :: kinds))

/-- The sign that closes the innermost shorthand. -/
def unwrap (s : State) (d : Draft) (kind : FamilyKind) (outer : List FamilyKind) (symbol : String)
    (t : Token) : Option State :=
  if t = closer kind then
    let after : State :=
      { s with
        grammar := s.grammar.wrap kind symbol
        events := s.events ++ s.grammar.wrapEvents kind symbol }
    some (after.reference d outer (kind.derived symbol))
  else none

/-- The first lexeme of a file: a rule may start the file, else definitions do. -/
def opening (s : State) : Token → Option State
  | .identifier name => s.rule (.identifier name)
  | t => s.definition t

/-- A lexeme that has to be an identifier. -/
def identifier (t : Token) (next : String → State) : Option State :=
  match t with
  | .identifier name => some (next name)
  | _ => none

/-- A lexeme that has to be the given sign. -/
def sign (p : Punctuation) (t : Token) (next : State) : Option State :=
  if t = .punctuation p then some next else none

/-- A lexeme after the keyword of a declaration. -/
def declaration (s : State) (d : Declaration) (t : Token) : Option State :=
  if t = .punctuation .less then some (s.goto (.declarationTag d)) else s.tokenName d [] t

/-- A lexeme after the keyword of a union declaration. -/
def unionKeyword (s : State) : Token → Option State
  | .code _ => some (s.goto .unionBlock)
  | _ => none

/-- A lexeme after the block of a union declaration. -/
def unionBlock (s : State) (t : Token) : Option State :=
  if t = .punctuation .semicolon then some (s.goto .definitions) else s.definition t

def setStart (s : State) (name : String) : State :=
  { s with control := .definitions, grammar := { s.grammar with start := name } }

/-- The state after one lexeme, if it may stand there. -/
def step (s : State) (lx : Lexeme) : Option State :=
  let t := lx.token
  match s.control with
  | .opening => s.opening t
  | .definitions => s.definition t
  | .startSymbol => identifier t s.setStart
  | .declaration d => s.declaration d t
  | .declarationTag d => identifier t fun _ ↦ s.goto (.declarationTagEnd d)
  | .declarationTagEnd d => sign .greater t (s.goto (.tokenName d []))
  | .tokenName d names => s.tokenName d names t
  | .tokenNames d names numbered => s.tokenNames d names numbered t
  | .typeKeyword => sign .less t (s.goto .typeTag)
  | .typeTag => identifier t fun _ ↦ s.goto .typeTagEnd
  | .typeTagEnd => sign .greater t (s.goto .symbolName)
  | .symbolName => identifier t fun _ ↦ s.goto (.symbolNames false)
  | .symbolNames comma => s.symbolNames comma t
  | .unionKeyword => s.unionKeyword t
  | .unionBlock => s.unionBlock t
  | .rules => s.rule t
  | .ruleName lhs => sign .colon t (s.goto (.parts ⟨lhs, [], []⟩))
  | .parts d => s.part d lx
  | .wrapped d kinds => s.wrapped d kinds t
  | .unwrapping d kind outer symbol => s.unwrap d kind outer symbol t
  | .finished => none

/-- The grammar at the end of the input. Without a declared start symbol the first rule is it. -/
def finish (s : State) : State :=
  if s.grammar.start = "" then
    match s.firstRule with
    | some first =>
      { s with
        grammar := { s.grammar with start := first }
        events := s.events ++ [.startAssumed first] }
    | none => s
  else s

end State

inductive SyntaxError where
  | lexical (e : Failure)
  | unexpected (found : Lexeme) (expected : Expectation)
  /-- The end of the input, after a last lexeme at the given place. -/
  | endOfInput (expected : Expectation) (last : Text.Position)
deriving DecidableEq

def SyntaxError.message : SyntaxError → String
  | .lexical e => e.message
  | .unexpected lx expected =>
    lx.pos.label ++ ": syntax error at `" ++ lx.token.text ++ "' (" ++ lx.token.kind ++
      "), expected " ++ expected.describe
  | .endOfInput expected last =>
    last.label ++ ": unexpected end of input, expected " ++ expected.describe

/-- A grammar and the illegal characters that were left out of its source. -/
structure Parsed where
  grammar : Grammar
  faults : List Fault

/-- The outcome of reading a grammar file, with everything reported on the way. -/
structure Report where
  result : Except SyntaxError Parsed
  events : List Event

/-- Reads on from a cursor; `last` is the place of the last lexeme. -/
def readFrom (cur : Cursor) (s : State) (last : Text.Position) (faults : List Fault) : Report :=
  match h : (cur.pull s.control.closing).item? with
  | none =>
    let p := cur.pull s.control.closing
    let events := s.events ++ p.events
    if s.control = .finished then
      let done := { s with events }.finish
      ⟨.ok ⟨done.grammar, faults ++ p.faults⟩, done.events⟩
    else ⟨.error (.endOfInput s.control.expects last), events⟩
  | some (.failure e) => ⟨.error (.lexical e), s.events ++ (cur.pull s.control.closing).events⟩
  | some (.lexeme lx) =>
    let p := cur.pull s.control.closing
    let events := s.events ++ p.events
    match { s with events }.step lx with
    | none => ⟨.error (.unexpected lx s.control.expects), events⟩
    | some next => readFrom p.cursor next lx.pos (faults ++ p.faults)
termination_by cur.rest.length
decreasing_by exact length_pullFrom h

/-- Reads a grammar file. -/
def parse (source : String) : Report := readFrom (.ofString source) {} .start []

end ParserGenerator.Grammar
