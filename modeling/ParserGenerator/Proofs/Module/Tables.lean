import ParserGenerator.Proofs.Registry.Agreement
import ParserGenerator.Proofs.Registry.Construction
import ParserGenerator.Proofs.Text.Literals
import ParserGenerator.Proofs.Text.Splits

/-!
# Tables of a module

The tables of a generated module are blocks with a row on each line. The readers of the rows know
their punctuation and the escapes of literals, and nothing about how the generator chooses between
the escapes. Whatever stands in the quoted symbols of a grammar, they get back what the grammar
says.
-/

namespace ParserGenerator

open Text

namespace Module

/-! ## Parts of a row -/

/-- The text after a fixed one. -/
def after? (fixed : String) (cs : List Char) : Option (List Char) := fixed.toList.isPrefixOf? cs

theorem after?_append (fixed : String) (rest : List Char) :
    after? fixed (fixed.toList ++ rest) = some rest :=
  List.isPrefixOf?_eq_some_iff_append_eq.2 rfl

/-- The associativity that a text starts with, and the text after it. -/
def assoc? (cs : List Char) : Option (Assoc × List Char) :=
  [Assoc.left, .right, .nonassoc].findSome? fun assoc ↦ (after? assoc.path cs).map (assoc, ·)

theorem assoc?_path (assoc : Assoc) (rest : List Char) :
    assoc? (assoc.path.toList ++ rest) = some (assoc, rest) := by
  cases assoc with
  | left => rfl
  | right => rfl
  | nonassoc => rfl

def withoutIndent (line : List Char) : List Char := line.dropWhile (· = ' ')

theorem withoutIndent_append (o : Options) (depth : Nat) {row : List Char}
    (h : row.head? ≠ some ' ') : withoutIndent ((o.indent depth).toList ++ row) = row := by
  have hspaces : ∀ c ∈ (o.indent depth).toList, decide (c = ' ') = true := by
    simp [Options.indent]
  have hrow : ∀ c ∈ row.head?, decide (c = ' ') = false := by
    intro c hc
    exact decide_eq_false fun heq ↦ h (heq ▸ hc)
  exact (span_append hspaces hrow).2

theorem feed_not_mem_indent (o : Options) (depth : Nat) : '\n' ∉ (o.indent depth).toList := by
  simp [Options.indent]

/-! ## Rows -/

/-- An associativity and the literals of its tokens. -/
def groupRow? (line : List Char) : Option PrecedenceGroup := do
  let cs ← after? "(" (withoutIndent line)
  let (assoc, cs) ← assoc? cs
  let cs ← after? ", &[" cs
  let (tokens, cs) ← literals? cs
  guard (cs = "),".toList)
  return ⟨assoc, tokens⟩

/-- A literal. -/
def nameRow? (line : List Char) : Option String := do
  let (name, cs) ← literal? (withoutIndent line)
  guard (cs = ",".toList)
  return name

/-- A handler and a production, each as a literal, and the name of a function. -/
def handlerRow? (line : List Char) : Option (String × String × String) := do
  let cs ← after? "(" (withoutIndent line)
  let (handler, cs) ← literal? cs
  let cs ← after? ", " cs
  let (production, cs) ← literal? cs
  let cs ← after? ", Actions::" cs
  guard (cs.dropWhile Lexer.isNameChar = "),".toList)
  return (handler, production, String.ofList (cs.takeWhile Lexer.isNameChar))

/-- The rows of a block. -/
def block? {α : Type} (row? : List Char → Option α) (block : String) : Option (List α) :=
  (lines block.toList).mapM row?

/-- The text is one line with its line feed, and `value` is read from this line. -/
def IsRow {α : Type} (row? : List Char → Option α) (text : String) (value : α) : Prop :=
  ∃ line, text.toList = line ++ ['\n'] ∧ '\n' ∉ line ∧ line.getLast? = some ',' ∧
    row? line = some value

/-- A block of rows is read row by row. -/
theorem block?_concat {ι α : Type} {row? : List Char → Option α} {text : ι → String}
    {value : ι → α} {items : List ι} (h : ∀ i ∈ items, IsRow row? (text i) (value i)) :
    block? row? (concat (items.map text)) = some (items.map value) := by
  induction items with
  | nil => rfl
  | cons i items ih =>
    obtain ⟨⟨line, htext, hfeed, hlast, hrow⟩, hitems⟩ := List.forall_mem_cons.1 h
    have hlines : lines (concat ((i :: items).map text)).toList =
        line :: lines (concat (items.map text)).toList := by
      rw [List.map_cons, concat, String.toList_append, htext, List.append_assoc]
      exact lines_append hfeed (by simp [hlast]) _
    have hrest : (lines (concat (items.map text)).toList).mapM row? = some (items.map value) :=
      ih hitems
    rw [block?, hlines, List.mapM_cons, hrow, hrest]
    rfl

/-! ## What the rows say -/

section Rows

variable (plain : Char → Bool) (o : Options)

theorem isRow_precedenceLine (group : PrecedenceGroup) :
    IsRow groupRow? (precedenceLine plain (o.indent 1) group) group := by
  have hread : groupRow? ((o.indent 1).toList ++ ("(".toList ++ (group.assoc.path.toList ++
      (", &[".toList ++ ((joinWith ", " (group.tokens.map (quoteWith plain))).toList ++
        ']' :: "),".toList))))) = some group := by
    rw [groupRow?, withoutIndent_append o 1 (by simp)]
    simp only [after?_append, assoc?_path, literals?_joinWith, Option.bind_eq_bind,
      Option.bind_some]
    rfl
  refine ⟨_, ?_, ?_, ?_, hread⟩
  · simp [precedenceLine]
  · have hpath : '\n' ∉ group.assoc.path.toList := by cases group.assoc <;> decide
    simp [feed_not_mem_indent, hpath, feed_not_mem_joinWith]
  · simp [List.getLast?_cons]

theorem isRow_nameLine (name : String) :
    IsRow nameRow? (o.indent 1 ++ quoteWith plain name ++ ",\n") name := by
  have hread : nameRow? ((o.indent 1).toList ++ ((quoteWith plain name).toList ++ ",".toList)) =
      some name := by
    rw [nameRow?, withoutIndent_append o 1 (by simp [quoteWith, quote]), literal?_quoteWith]
    rfl
  refine ⟨_, ?_, ?_, ?_, hread⟩
  · simp
  · simp [feed_not_mem_indent, feed_not_mem_quoteWith]
  · simp

theorem isRow_handlerLine {e : Entry} (h : ∀ c ∈ e.handler.toList, Lexer.isNameChar c = true) :
    IsRow handlerRow? (handlerLine plain (o.indent 1) e) (e.handler, e.production, e.handler) := by
  have hread : handlerRow? ((o.indent 1).toList ++ ("(".toList ++
      ((quoteWith plain e.handler).toList ++ (", ".toList ++
        ((quoteWith plain e.production).toList ++
          (", Actions::".toList ++ (e.handler.toList ++ "),".toList))))))) =
      some (e.handler, e.production, e.handler) := by
    have hparen : Lexer.isNameChar ')' = false := by decide
    obtain ⟨htake, hdrop⟩ :
        (e.handler.toList ++ "),".toList).takeWhile Lexer.isNameChar = e.handler.toList ∧
          (e.handler.toList ++ "),".toList).dropWhile Lexer.isNameChar = "),".toList :=
      span_append h (by simp [hparen])
    rw [handlerRow?, withoutIndent_append o 1 (by simp)]
    simp only [after?_append, literal?_quoteWith, Option.bind_eq_bind, Option.bind_some, htake,
      hdrop, String.ofList_toList]
    rfl
  refine ⟨_, ?_, ?_, ?_, hread⟩
  · simp [handlerLine]
  · have hhandler : '\n' ∉ e.handler.toList := fun hmem ↦ absurd (h _ hmem) (by decide)
    simp [feed_not_mem_indent, feed_not_mem_quoteWith, hhandler]
  · simp [List.getLast?_cons]

end Rows

/-! ## Names of functions -/

section Handlers

open Lexer ParserGenerator.Derivation

/-- The handlers of a grammar that was read from a source are written with the characters of
names. -/
theorem isNameChar_handler {f : File} (h : AllShaped f.tokens)
    {families : List (FamilyKind × String)} {e : Entry}
    (he : e ∈ entries (f.grammar.request families)) :
    ∀ c ∈ e.handler.toList, isNameChar c = true := by
  rw [entries_eq h, List.mem_append] at he
  rcases he with hrule | hempty
  · obtain ⟨p, hp, rfl⟩ := List.mem_map.1 hrule
    have hname := isName_chars (Clause.isName_nameOf (isName_lhs h hp) p.index)
    have hhandler : (Entry.ofRule p.rule).handler.toList =
        'p' :: '_' :: (p.clause.nameOf p.index).toList := by
      simp [Entry.ofRule, Rule.handler, Place.rule, Clause.ruleOf]
    rw [hhandler, List.forall_mem_cons, List.forall_mem_cons]
    exact ⟨by decide, by decide, hname⟩
  · split at hempty
    · cases hempty
    · obtain rfl := List.mem_singleton.1 hempty
      have hall : emptyEntry.handler.toList.all isNameChar = true := by decide
      exact List.all_eq_true.1 hall

end Handlers

/-! ## Blocks -/

section Blocks

variable (plain : Char → Bool) (g : Grammar) (o : Options)

theorem ofName?_name (slot : Slot) : Slot.ofName? slot.name = some slot := by
  cases slot with
  | family kind => cases kind <;> decide
  | _ => decide

theorem bind_valueWith?_name {α : Type} (slot : Slot) (read? : String → Option α) :
    (valueWith? plain g o slot.name).bind read? = read? (slot.contentWith plain g o) := by
  rw [valueWith?, ofName?_name]
  rfl

theorem read_precedence :
    block? groupRow? (Slot.precedence.contentWith plain g o) = some g.precedence := by
  have hrows : ∀ group ∈ g.precedence,
      IsRow groupRow? (precedenceLine plain (o.indent 1) group) group :=
    fun group _ ↦ isRow_precedenceLine plain o group
  have hread := block?_concat hrows
  rwa [List.map_id'] at hread

theorem read_nameBlock (names : List String) :
    block? nameRow? (nameBlock plain (o.indent 1) names) = some names := by
  have hrows : ∀ name ∈ names,
      IsRow nameRow? (o.indent 1 ++ quoteWith plain name ++ ",\n") name :=
    fun name _ ↦ isRow_nameLine plain o name
  have hread := block?_concat hrows
  rwa [List.map_id'] at hread

theorem read_handlers
    (h : ∀ e ∈ entries g, ∀ c ∈ e.handler.toList, Lexer.isNameChar c = true) :
    block? handlerRow? (Slot.handlers.contentWith plain g o) =
      some ((entries g).map fun e ↦ (e.handler, e.production, e.handler)) :=
  block?_concat fun e he ↦ isRow_handlerLine plain o (h e he)

/-- The handlers and productions of the entries are those of the rules, and of the built-in rule for
the empty text if it is not defined. -/
theorem map_entries :
    (entries g).map (fun e ↦ (e.handler, e.production, e.handler)) =
      g.rules.map (fun r ↦ (r.handler, r.production, r.handler)) ++
        if g.defines "empty" then [] else [("p_empty", "empty : ", "p_empty")] := by
  rw [entries, List.map_append, List.map_map, emptyName]
  congr 1
  split
  · rfl
  · rfl

end Blocks

end Module

open Lexer ParserGenerator.Module ParserGenerator.Derivation

/-- Read line by line as literals, the tables of a module that is generated from a source say what
the grammar says, whatever characters are written by number, whatever families are requested and
however wide the indentation is: the precedence groups with their associativities, the tokens, the
three family sets in their order, and for every rule its handler, its production and the function of
the same name. The rule for the empty text comes last unless the grammar has one. -/
theorem tables_read_back {source : String} {parsed : Grammar.Parsed}
    (h : (Grammar.parse source).result = .ok parsed) (plain : Char → Bool) (o : Options) :
    let g := parsed.grammar.request o.families
    (valueWith? plain g o "precs").bind (block? groupRow?) = some g.precedence ∧
    (valueWith? plain g o "tokens").bind (block? nameRow?) = some g.tokens.names ∧
    (valueWith? plain g o "opt_rules").bind (block? nameRow?) = some g.families.optional.names ∧
    (valueWith? plain g o "list_rules").bind (block? nameRow?) = some g.families.list.names ∧
    (valueWith? plain g o "string_rules").bind (block? nameRow?) = some g.families.string.names ∧
    (valueWith? plain g o "handlers").bind (block? handlerRow?) =
      some (g.rules.map (fun r ↦ (r.handler, r.production, r.handler)) ++
        if g.defines "empty" then [] else [("p_empty", "empty : ", "p_empty")]) := by
  intro g
  obtain ⟨-, file, hfile, rfl⟩ := (Grammar.parse_eq_ok_iff source parsed).1 h
  have hhandlers := read_handlers plain g o fun e ↦ isNameChar_handler (allShaped_of_tokens hfile)
  rw [map_entries] at hhandlers
  refine ⟨?_, ?_, ?_, ?_, ?_, ?_⟩
  · exact (bind_valueWith?_name plain g o .precedence _).trans (read_precedence plain g o)
  · exact (bind_valueWith?_name plain g o .tokens _).trans (read_nameBlock plain o _)
  · exact (bind_valueWith?_name plain g o (.family .optional) _).trans (read_nameBlock plain o _)
  · exact (bind_valueWith?_name plain g o (.family .list) _).trans (read_nameBlock plain o _)
  · exact (bind_valueWith?_name plain g o (.family .string) _).trans (read_nameBlock plain o _)
  · exact (bind_valueWith?_name plain g o .handlers _).trans hhandlers

/-- Quotes, backslashes, a tab and a character without a visible form, in quoted symbols and in a
requested base. -/
theorem tables_read_back_quoted :
    let source := "%left '\"' \"a\\\"\n%token \"\t\u200b\"\n%%\nx : [<a>] '\\n' | '\\' ;\n%%\n"
    let o : Options := { tabSize := 2, families := [(.list, "b \"c\\\"")] }
    ∃ parsed, (Grammar.parse source).result = .ok parsed ∧
      let g := parsed.grammar.request o.families
      (value? g o "precs").bind (block? groupRow?) = some [⟨.left, ["'\"'", "\"a\\\""]⟩] ∧
      (value? g o "tokens").bind (block? nameRow?) = some ["\"\t\u200b\""] ∧
      (value? g o "list_rules").bind (block? nameRow?) = some ["a", "b \"c\\\""] ∧
      (value? g o "handlers").bind (block? handlerRow?) =
        some [("p_x_1", "x : a_list_opt '\\n'", "p_x_1"), ("p_x_2", "x : '\\'", "p_x_2"),
          ("p_empty", "empty : ", "p_empty")] := by
  intro source o
  let file : File :=
    { header := some ⟨[.declaration (.precedence .left) none ⟨.quoted "'\"'", none⟩
          [⟨false, ⟨.quoted "\"a\\\"", none⟩⟩] false,
        .declaration .tokens none ⟨.quoted "\"\t\u200b\"", none⟩ [] false], none⟩
      clauses := [⟨"x", [.reference (.wrapped .optional (.wrapped .list (.plain "a"))),
        .quoted "'\\n'"], [[.quoted "'\\'"]]⟩]
      tail := some "\n"
      starts_with_rule := nofun }
  have hfailures : failuresOf (delivered source) = [] := by decide +kernel
  have hfile : file.tokens = tokensOf (delivered source) := by decide +kernel
  have hparsed := (Grammar.parse_eq_ok_iff source _).2 ⟨hfailures, file, hfile, rfl⟩
  obtain ⟨hprecs, htokens, -, hlists, -, hhandlers⟩ := tables_read_back hparsed isPrintable o
  refine ⟨_, hparsed, hprecs.trans ?_, htokens.trans ?_, hlists.trans ?_, hhandlers.trans ?_⟩
  · decide +kernel
  · decide +kernel
  · decide +kernel
  · decide +kernel

end ParserGenerator
