import ParserGenerator.Proofs.Parsing.Words
import ParserGenerator.Proofs.Sample.Basic
import ParserGenerator.Proofs.Text.Numerals
import ParserGenerator.Sample.Annotations

/-!
# Blocks are read back

A list of blocks is written as words `KIND=text` and read back by the annotation parser. A text may
hold whatever does not end a word, equals signs included, because a word is cut at its first equals
sign only, and the absence of annotations or blocks is read as an empty list.
-/

namespace ParserGenerator.Sample.Annotations

open Registry Script Text

/-! ## Blocks -/

/-- A text that stands in one word. -/
structure Field where
  text : String
  no_space : ' ' ∉ text.toList
  no_feed : '\n' ∉ text.toList

/-- A place in a file. -/
structure Place where
  file : Field
  line : UInt32
  column : UInt32
  offset : UInt32

inductive NoteKind where
  | type
  | ident
  | call

namespace NoteKind

/-- The word in front of an annotation. -/
def word : NoteKind → String
  | type => "TYPE"
  | ident => "IDENT"
  | call => "CALL"

def label : NoteKind → String
  | type => "type"
  | ident => "ident"
  | call => "call"

/-- The name of the production of an annotation. -/
def rule : NoteKind → String
  | type => "p_annotation_1"
  | ident => "p_annotation_2"
  | call => "p_annotation_3"

end NoteKind

structure Note where
  kind : NoteKind
  text : Field

structure Block where
  first : Place
  last : Place
  notes : List Note

/-! ## Words -/

/-- A word that carries a text. -/
def word (kind text : String) : String := kind ++ "=" ++ text

/-- A word that carries a number in decimal digits. -/
def numberWord (n : UInt32) : String := word "NUMBER" (toString n.toNat)

def Place.texts (p : Place) : List String :=
  [word "FILENAME" p.file.text, numberWord p.line, numberWord p.column, numberWord p.offset]

def Note.texts (n : Note) : List String := [n.kind.word, word "VAL" n.text.text]

def Block.texts (b : Block) : List String :=
  b.first.texts ++ (b.last.texts ++ b.notes.flatMap Note.texts)

/-! ## Values -/

def Place.value (p : Place) : Value :=
  .position p.file.text p.line.toNat p.column.toNat p.offset.toNat

def Note.value (n : Note) : Value := .note n.kind.label n.text.text

def Block.value (b : Block) : Value := .block b.first.value b.last.value (b.notes.map Note.value)

/-! ## Scripts -/

def Place.script (_ : Place) : List Step :=
  [.shift, .shift, .shift, .shift, .reduce "p_position"]

def Note.script (n : Note) : List Step := [.shift, .shift, .reduce n.kind.rule]

/-- The steps of the derivation of `base_string`, from the right. -/
def stringScript (base : String) (first : List Step) : List (List Step) → List Step
  | [] => first ++ [.reduce ("p_" ++ base ++ "_string_1")]
  | next :: later =>
    first ++ stringScript base next later ++ [.reduce ("p_" ++ base ++ "_string_2")]

/-- The steps of the derivation of `base_string_opt`. -/
def optionalScript (base : String) : List (List Step) → List Step
  | [] => [.reduce ("p_" ++ base ++ "_string_opt_1")]
  | first :: others =>
    stringScript base first others ++ [.reduce ("p_" ++ base ++ "_string_opt_2")]

def Block.script (b : Block) : List Step :=
  b.first.script ++ b.last.script ++ optionalScript "annotation" (b.notes.map Note.script) ++
    [.reduce "p_block"]

/-- The steps of the derivation of `file`. -/
def script (blocks : List Block) : List Step :=
  optionalScript "block" (blocks.map Block.script) ++ [.reduce "p_file"]

/-! ## Productions -/

/-- What the source declares. -/
def declared : Grammar :=
  { start := "file"
    tokens := .ofList ["FILENAME", "NUMBER", "TYPE", "IDENT", "CALL", "VAL"]
    families :=
      { optional := .ofList ["block_string", "annotation_string"]
        string := .ofList ["block", "annotation"] }
    rules :=
      [⟨"file", "file : block_string_opt", ""⟩,
        ⟨"block", "block : position position annotation_string_opt", ""⟩,
        ⟨"position", "position : FILENAME NUMBER NUMBER NUMBER", ""⟩,
        ⟨"annotation_1", "annotation : TYPE VAL", ""⟩,
        ⟨"annotation_2", "annotation : IDENT VAL", ""⟩,
        ⟨"annotation_3", "annotation : CALL VAL", ""⟩] }

def fileRule : Production := ⟨"p_file", "file", ["block_string_opt"], none⟩

def blockRule : Production :=
  ⟨"p_block", "block", ["position", "position", "annotation_string_opt"], none⟩

def positionRule : Production :=
  ⟨"p_position", "position", ["FILENAME", "NUMBER", "NUMBER", "NUMBER"], none⟩

def NoteKind.production (kind : NoteKind) : Production :=
  ⟨kind.rule, "annotation", [kind.word, "VAL"], none⟩

def rules : List Production :=
  [fileRule, blockRule, positionRule, NoteKind.type.production, NoteKind.ident.production,
    NoteKind.call.production]

set_option maxRecDepth 2000 in
theorem declares : sample.Declares declared rules where
  grammar_eq := grammar_eq_of_scan (n := 300) rfl rfl (by decide +kernel)
  productions_eq := by decide +kernel
  rules_free := by decide +kernel
  families_free := by decide +kernel

/-! ## Derivations -/

/-- The derivation of `base_string_opt`. -/
def optionalTree (base : String) (hstring : (base, .string) ∈ familiesOf declared.families)
    (hoptional : (FamilyKind.string.derived base, .optional) ∈ familiesOf declared.families) :
    List (Tree sample.definition.registry) → Tree sample.definition.registry :=
  Tree.optionalString (declares.hasFamily hoptional) (declares.hasFamily hstring)

theorem NoteKind.production_mem (kind : NoteKind) : kind.production ∈ rules := by
  cases kind <;> simp [rules]

def Place.tree (_ : Place) : Tree sample.definition.registry :=
  declares.ruleTree (p := positionRule) (by decide)
    (.cons .leaf (.cons .leaf (.cons .leaf (.cons .leaf .nil))))

def Note.tree (n : Note) : Tree sample.definition.registry :=
  declares.ruleTree n.kind.production_mem (.cons .leaf (.cons .leaf .nil))

def notesTree (notes : List Note) : Tree sample.definition.registry :=
  optionalTree "annotation" (by decide) (by decide) (notes.map Note.tree)

def Block.tree (b : Block) : Tree sample.definition.registry :=
  declares.ruleTree (p := blockRule) (by decide)
    (.cons b.first.tree (.cons b.last.tree (.cons (notesTree b.notes) .nil)))

def blocksTree (blocks : List Block) : Tree sample.definition.registry :=
  optionalTree "block" (by decide) (by decide) (blocks.map Block.tree)

def tree (blocks : List Block) : Tree sample.definition.registry :=
  declares.ruleTree (p := fileRule) (by decide) (.cons (blocksTree blocks) .nil)

theorem names_string (base : String) :
    (familyProductions .string base).1.name = "p_" ++ base ++ "_string_1" ∧
      (familyProductions .string base).2.name = "p_" ++ base ++ "_string_2" := by
  obtain ⟨hfirst, hsecond⟩ := name_familyProductions .string base
  rw [hfirst, hsecond]
  simp [Family.derived, Family.kind, FamilyKind.derived, FamilyKind.suffix, String.append_assoc]

theorem names_optional (base : String) :
    (familyProductions .optional (FamilyKind.string.derived base)).1.name =
        "p_" ++ base ++ "_string_opt_1" ∧
      (familyProductions .optional (FamilyKind.string.derived base)).2.name =
        "p_" ++ base ++ "_string_opt_2" := by
  obtain ⟨hfirst, hsecond⟩ := name_familyProductions .optional (FamilyKind.string.derived base)
  rw [hfirst, hsecond]
  simp [Family.derived, Family.kind, FamilyKind.derived, FamilyKind.suffix, String.append_assoc]

theorem script_stringTree {base : String} (h : sample.definition.registry.HasFamily .string base)
    (first : Tree sample.definition.registry) (others : List (Tree sample.definition.registry)) :
    (Tree.string h first others).script =
      stringScript base first.script (others.map Tree.script) := by
  induction others generalizing first with
  | nil => rw [Tree.script_string_nil, (names_string base).1, List.map_nil, stringScript]
  | cons next others ih =>
    rw [Tree.script_string_cons, (names_string base).2, ih, List.map_cons, stringScript]

theorem script_optionalTree {base : String}
    (hstring : (base, .string) ∈ familiesOf declared.families)
    (hoptional : (FamilyKind.string.derived base, .optional) ∈ familiesOf declared.families)
    (trees : List (Tree sample.definition.registry)) :
    (optionalTree base hstring hoptional trees).script =
      optionalScript base (trees.map Tree.script) := by
  cases trees with
  | nil =>
    rw [optionalTree, Tree.optionalString, Tree.script_optional_none, (names_optional base).1,
      List.map_nil, optionalScript]
  | cons first others =>
    rw [optionalTree, Tree.optionalString, Tree.script_optional_some, (names_optional base).2,
      script_stringTree, List.map_cons, optionalScript]

theorem script_notesTree (notes : List Note) :
    (notesTree notes).script = optionalScript "annotation" (notes.map Note.script) := by
  rw [notesTree, script_optionalTree, List.map_map]
  rfl

theorem Block.script_tree (b : Block) : b.tree.script = b.script :=
  calc b.tree.script
    _ = b.first.script ++ (b.last.script ++ ((notesTree b.notes).script ++ [])) ++
        [.reduce "p_block"] := rfl
    _ = b.script := by
      rw [script_notesTree, script, List.append_nil, List.append_assoc b.first.script b.last.script]

theorem script_tree (blocks : List Block) : (tree blocks).script = script blocks :=
  calc (tree blocks).script
    _ = (blocksTree blocks).script ++ [] ++ [.reduce "p_file"] := rfl
    _ = optionalScript "block" (blocks.map (·.tree.script)) ++ [.reduce "p_file"] := by
      rw [blocksTree, script_optionalTree, List.map_map, List.append_nil]
      rfl
    _ = script blocks := by
      rw [script, List.map_congr_left fun b _ ↦ b.script_tree]

/-! ## Values of derivations -/

/-- The value of a word of a given text. -/
def wordValue (text : String) : Option Value :=
  match cutAt '=' text.toList with
  | some (_, after) => some (.text (String.ofList after))
  | none => some .null

/-- A word is cut at its first equals sign. -/
theorem wordValue_word {kind : String} (h : '=' ∉ kind.toList) (text : String) :
    wordValue (word kind text) = some (.text text) := by
  have htext : (word kind text).toList = kind.toList ++ '=' :: text.toList := by
    simp [word]
  rw [wordValue, htext, cutAt_append h]
  simp

theorem yields_word (kind text : String) (h : '=' ∉ kind.toList) :
    (Tree.leaf : Tree sample.definition.registry).Yields lift [wordValue (word kind text)]
      (some (Value.text text)) := by
  rw [wordValue_word h]
  exact Tree.yields_leaf _

theorem asNumber_toString (n : UInt32) : (Value.text (toString n.toNat)).asNumber = n.toNat := by
  rw [Value.asNumber, Value.asText, readUInt32?_toString, Option.getD_some]

theorem Place.yields (p : Place) :
    p.tree.Yields lift (p.texts.map wordValue) (some p.value) := by
  have hnumber (n : UInt32) := yields_word "NUMBER" (toString n.toNat) (by decide)
  have hfile := yields_word "FILENAME" p.file.text (by decide)
  have h := declares.yields_ruleTree (p := positionRule) (by decide)
    (hfile.cons ((hnumber p.line).cons ((hnumber p.column).cons ((hnumber p.offset).cons
      Forest.yields_nil))))
  rw [Place.value, ← asNumber_toString p.line, ← asNumber_toString p.column,
    ← asNumber_toString p.offset]
  exact h

theorem NoteKind.handler_production (kind : NoteKind) :
    sample.handler kind.production.name = annotate kind.label := by
  cases kind <;> rfl

/-- A word without an equals sign has no text. -/
theorem NoteKind.wordValue_word (kind : NoteKind) : wordValue kind.word = some .null := by
  cases kind <;> rfl

theorem Note.yields (n : Note) : n.tree.Yields lift (n.texts.map wordValue) (some n.value) := by
  have hkind : (Tree.leaf : Tree sample.definition.registry).Yields lift [wordValue n.kind.word]
      (wordValue n.kind.word) := Tree.yields_leaf _
  have htext := yields_word "VAL" n.text.text (by decide)
  have h := declares.yields_ruleTree n.kind.production_mem
    (hkind.cons (htext.cons Forest.yields_nil))
  rw [n.kind.wordValue_word, n.kind.handler_production] at h
  rw [texts, List.map_cons, n.kind.wordValue_word]
  exact h

theorem items_optionalSeq (vs : List Value) : (optionalSeq vs : Value).items = vs := by
  cases vs <;> rfl

theorem Block.yields (b : Block) : b.tree.Yields lift (b.texts.map wordValue) (some b.value) := by
  have hnotes : (notesTree b.notes).Yields lift (b.notes.flatMap (·.texts.map wordValue))
      (some (optionalSeq (b.notes.map Note.value))) :=
    Tree.yields_optionalString _ _ (fun _ ↦ rfl) Note.yields b.notes
  have h := declares.yields_ruleTree (p := blockRule) (by decide)
    (b.first.yields.cons (b.last.yields.cons (hnotes.cons Forest.yields_nil)))
  rw [List.append_nil] at h
  rw [texts, List.map_append, List.map_append, List.map_flatMap, value,
    ← items_optionalSeq (b.notes.map Note.value)]
  exact h

theorem yields_tree (blocks : List Block) :
    (tree blocks).Yields lift ((blocks.flatMap Block.texts).map wordValue)
      (some (.seq (blocks.map Block.value))) := by
  have hblocks : (blocksTree blocks).Yields lift (blocks.flatMap (·.texts.map wordValue))
      (some (optionalSeq (blocks.map Block.value))) :=
    Tree.yields_optionalString _ _ (fun _ ↦ rfl) Block.yields blocks
  have h := declares.yields_ruleTree (p := fileRule) (by decide) (hblocks.cons Forest.yields_nil)
  rw [List.append_nil] at h
  rw [List.map_flatMap, ← items_optionalSeq (blocks.map Block.value)]
  exact h

/-! ## The text of blocks -/

theorem isWord_word {kind text : String} (hkind : ' ' ∉ kind.toList ∧ '\n' ∉ kind.toList)
    (htext : ' ' ∉ text.toList ∧ '\n' ∉ text.toList) : Words.IsWord (word kind text) := by
  have hequals : word kind text ≠ "" := by
    intro hempty
    have hlist := congrArg String.toList hempty
    simp [word] at hlist
  refine ⟨hequals, ?_, ?_⟩
  · simp [word, hkind.1, htext.1]
  · simp [word, hkind.2, htext.2]

theorem isWord_numberWord (n : UInt32) : Words.IsWord (numberWord n) := by
  have hdigits {c : Char} (hc : c.isDigit = false) : c ∉ (toString n.toNat).toList := by
    rw [Nat.toString_eq_ofList_toDigits, String.toList_ofList]
    intro hmem
    rw [Nat.isDigit_of_mem_toDigits (by decide) (by decide) hmem] at hc
    cases hc
  exact isWord_word (by decide) ⟨hdigits (by decide), hdigits (by decide)⟩

theorem Place.isWord_of_mem_texts (p : Place) : ∀ t ∈ p.texts, Words.IsWord t := by
  simp only [texts, List.forall_mem_cons]
  exact ⟨isWord_word (by decide) ⟨p.file.no_space, p.file.no_feed⟩, isWord_numberWord p.line,
    isWord_numberWord p.column, isWord_numberWord p.offset, nofun⟩

theorem Note.isWord_of_mem_texts (n : Note) : ∀ t ∈ n.texts, Words.IsWord t := by
  have hkind : Words.IsWord n.kind.word := by
    cases n.kind <;> exact ⟨by decide, by decide, by decide⟩
  simp only [texts, List.forall_mem_cons]
  exact ⟨hkind, isWord_word (by decide) ⟨n.text.no_space, n.text.no_feed⟩, nofun⟩

theorem isWord_of_mem_texts {blocks : List Block} :
    ∀ t ∈ blocks.flatMap Block.texts, Words.IsWord t := by
  intro t ht
  obtain ⟨b, -, hb⟩ := List.mem_flatMap.1 ht
  rw [Block.texts, List.mem_append, List.mem_append, List.mem_flatMap] at hb
  rcases hb with hfirst | hlast | ⟨n, -, hnote⟩
  · exact b.first.isWord_of_mem_texts t hfirst
  · exact b.last.isWord_of_mem_texts t hlast
  · exact n.isWord_of_mem_texts t hnote

/-- Parsing undoes writing: from the words of any blocks, all on one line, the annotation parser
returns the blocks with their annotations, in order. -/
theorem parse_blocks (blocks : List Block) :
    ((sample.parser (script blocks) .ignored).parse
        (joinWith " " (blocks.flatMap Block.texts))).1 = .ok (.seq (blocks.map Block.value)) := by
  have hstart : (tree blocks).lhs? = some sample.definition.start := by
    rw [declares.start_eq]
    rfl
  have hwords : (Words.ofString classify (joinWith " " (blocks.flatMap Block.texts))).map lift =
      (blocks.flatMap Block.texts).map wordValue :=
    Words.map_ofString_joinWith classify (fun _ text ↦ wordValue text) isWord_of_mem_texts
  have hyields := yields_tree blocks
  rw [← hwords] at hyields
  exact result_of_yields (sample.parser (script blocks) .ignored) rfl (script_tree blocks).symm
    hstart hyields

/-- A text may be empty or hold equals signs. -/
example :
    let place : Place := ⟨⟨"a=b", by decide, by decide⟩, 1, 0, 30⟩
    let b : Block := ⟨place, place, [⟨.call, ⟨"", by decide, by decide⟩⟩]⟩
    joinWith " " b.texts =
        "FILENAME=a=b NUMBER=1 NUMBER=0 NUMBER=30 FILENAME=a=b NUMBER=1 NUMBER=0 NUMBER=30 CALL VAL=" ∧
      script [b] = place.script ++ place.script ++
        [.shift, .shift, .reduce "p_annotation_3", .reduce "p_annotation_string_1",
          .reduce "p_annotation_string_opt_2", .reduce "p_block", .reduce "p_block_string_1",
          .reduce "p_block_string_opt_2", .reduce "p_file"] := by
  decide +kernel

end ParserGenerator.Sample.Annotations
