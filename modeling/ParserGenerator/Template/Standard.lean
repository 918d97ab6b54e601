import ParserGenerator.Template.Basic

/-!
# The standard template

The template that is used if no other one is given. The module that it makes holds the tables of the
grammar, the reduction handlers, a function that builds the registry of productions, and a parser
type that joins a reduction engine with scope hooks.
-/

namespace ParserGenerator.Template

def standardLines : List String :=
  ["// ** ATTENTION **",
   "// This code was automatically generated from the file:",
   "// $cfg_filename",
   "//",
   "// Do not modify it directly. Modify the grammar file and",
   "// run the generator again.",
   "// ** ** *** ** **",
   "",
   "#[allow(unused_imports)]",
   "use ygen_runtime::_private::\x7b",
   "    syntax_error, Assoc, Engine, Family, Handler, NoScopes, ParseError, ParserDef, Reduction,",
   "    RuleSet, ScopeHooks, Scoped, SemanticValue, TableBuilder, Token, TokenSource,",
   "\x7d;",
   "",
   "$prologue",
   "/// The start symbol of this grammar.",
   "pub const START: &str = \"$start\";",
   "",
   "/// Precedence groups, lowest priority first.",
   "pub const PRECEDENCE: &[(Assoc, &[&str])] = &[",
   "$precs];",
   "",
   "pub const TOKENS: &[&str] = &[",
   "$tokens];",
   "",
   "pub const OPT_RULES: &[&str] = &[",
   "$opt_rules];",
   "",
   "pub const LIST_RULES: &[&str] = &[",
   "$list_rules];",
   "",
   "pub const STRING_RULES: &[&str] = &[",
   "$string_rules];",
   "",
   "/// Reduction handlers of this grammar.",
   "pub struct Actions;",
   "",
   "#[allow(unused_variables, clippy::all)]",
   "impl Actions \x7b",
   "$productions\x7d",
   "",
   "/// `(handler name, production, handler)` of every rule, in declaration order.",
   "pub const PRODUCTIONS: &[(&str, &str, Handler<Value>)] = &[",
   "$handlers];",
   "",
   "/// Build the handler registry, including the installed rule families.",
   "pub fn rule_set() -> Result<RuleSet<Value>, ParseError> \x7b",
   "    let mut rules = RuleSet::new();",
   "    for &(name, bnf, handler) in PRODUCTIONS \x7b",
   "        rules.define(name, bnf, handler)?;",
   "    \x7d",
   "    for &name in LIST_RULES \x7b",
   "        rules.install_family(name, Family::list())?;",
   "    \x7d",
   "    for &name in STRING_RULES \x7b",
   "        rules.install_family(name, Family::String)?;",
   "    \x7d",
   "    for &name in OPT_RULES \x7b",
   "        rules.install_family(name, Family::Optional)?;",
   "    \x7d",
   "    Ok(rules)",
   "\x7d",
   "",
   "pub struct Parser<E, S = NoScopes> \x7b",
   "    engine: E,",
   "    scopes: S,",
   "\x7d",
   "",
   "impl<E> Parser<E>",
   "where",
   "    E: Engine<Value>,",
   "\x7b",
   "    /// Install the rule families and hand the definition to `builder`.",
   "    pub fn new<B>(builder: B) -> Result<Self, ParseError>",
   "    where",
   "        B: TableBuilder<Value, Engine = E>,",
   "    \x7b",
   "        Self::with_scopes(builder, NoScopes)",
   "    \x7d",
   "\x7d",
   "",
   "impl<E, S> Parser<E, S>",
   "where",
   "    E: Engine<Value>,",
   "    S: ScopeHooks,",
   "\x7b",
   "    /// Like [`Parser::new`], with `scopes` handed to the lexer on every token.",
   "    pub fn with_scopes<B>(builder: B, scopes: S) -> Result<Self, ParseError>",
   "    where",
   "        B: TableBuilder<Value, Engine = E>,",
   "    \x7b",
   "        let def = ParserDef::new(START, TOKENS, PRECEDENCE, rule_set()?);",
   "        let engine = builder.build(def)?;",
   "        Ok(Self \x7b engine, scopes \x7d)",
   "    \x7d",
   "",
   "    pub fn scopes(&self) -> &S \x7b",
   "        &self.scopes",
   "    \x7d",
   "",
   "    pub fn scopes_mut(&mut self) -> &mut S \x7b",
   "        &mut self.scopes",
   "    \x7d",
   "",
   "    pub fn parse(",
   "        &mut self,",
   "        text: &str,",
   "        lexer: &mut dyn TokenSource,",
   "        debug: u32,",
   "    ) -> Result<Value, ParseError> \x7b",
   "        lexer.reset_lineno();",
   "        let mut lexer = Scoped::new(lexer, &mut self.scopes);",
   "        self.engine.parse(text, &mut lexer, debug)",
   "    \x7d",
   "",
   "    /// The error reported when no action exists for `token`.",
   "    pub fn p_error(token: Option<&Token>, filename: &str) -> ParseError \x7b",
   "        syntax_error(token, filename)",
   "    \x7d",
   "\x7d",
   "$epilogue"]

/-- The text of the standard template; no line feed follows its last line. -/
def standard : String := Text.joinWith "\n" standardLines

end ParserGenerator.Template
