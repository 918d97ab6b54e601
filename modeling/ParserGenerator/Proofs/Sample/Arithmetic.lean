import ParserGenerator.Proofs.Parsing.Words
import ParserGenerator.Proofs.Registry.Construction
import ParserGenerator.Proofs.Sample.Basic
import ParserGenerator.Proofs.Text.Numerals
import ParserGenerator.Sample.Calculator

/-!
# The calculator is exact

The value of an expression is an integer without bounds. The calculator comes to that value, or it
crashes: it never returns another number. It crashes if and only if some part of the expression has
a value outside of 64 bits, however small the value of the whole is.
-/

namespace ParserGenerator.Sample.Calculator

open Registry Script Text

/-! ## Expressions -/

/-- At least one decimal digit. -/
structure Numeral where
  digits : List Char
  ne_nil : digits ≠ []
  isDigit : ∀ c ∈ digits, c.isDigit = true

inductive Op where
  | add
  | sub
  | mul
  | div

namespace Op

def sign : Op → String
  | add => "+"
  | sub => "-"
  | mul => "*"
  | div => "/"

/-- Division truncates toward zero, and a division by zero gives zero. -/
def apply : Op → Int → Int → Int
  | add => (· + ·)
  | sub => (· - ·)
  | mul => (· * ·)
  | div => Int.tdiv

/-- The name of the production of an operation. -/
def rule : Op → String
  | add => "p_expr_1"
  | sub => "p_expr_2"
  | mul => "p_expr_3"
  | div => "p_expr_4"

end Op

/-- A derivation of `expr`, whatever the precedences are. -/
inductive Expr where
  | numeral (n : Numeral)
  | binary (op : Op) (a b : Expr)
  | negation (a : Expr)
  | paren (a : Expr)

namespace Expr

/-- The words of an expression. -/
def texts : Expr → List String
  | numeral n => [String.ofList n.digits]
  | binary op a b => a.texts ++ op.sign :: b.texts
  | negation a => "-" :: a.texts
  | paren a => "(" :: (a.texts ++ [")"])

/-- The steps of the derivation, those of a production after those of its right-hand side. -/
def script : Expr → List Step
  | numeral _ => [.shift, .reduce "p_expr_7"]
  | binary op a b => a.script ++ .shift :: b.script ++ [.reduce op.rule]
  | negation a => .shift :: a.script ++ [.reduce "p_expr_5"]
  | paren a => .shift :: a.script ++ [.shift, .reduce "p_expr_6"]

def value : Expr → Int
  | numeral n => Nat.ofDigitChars 10 n.digits 0
  | binary op a b => op.apply a.value b.value
  | negation a => -a.value
  | paren a => a.value

/-- The parts of an expression that are expressions themselves, the whole included. -/
def subexpressions : Expr → List Expr
  | numeral n => [numeral n]
  | binary op a b => binary op a b :: a.subexpressions ++ b.subexpressions
  | negation a => negation a :: a.subexpressions
  | paren a => paren a :: a.subexpressions

end Expr

/-- The words of a list of expressions, with commas between them. -/
def texts (first : Expr) (others : List Expr) : List String :=
  first.texts ++ others.flatMap ("," :: ·.texts)

/-- The steps of the derivation of `expr_list`, from the right. -/
def listScript (first : Expr) : List Expr → List Step
  | [] => first.script ++ [.reduce "p_expr_list_1"]
  | next :: later => first.script ++ .shift :: listScript next later ++ [.reduce "p_expr_list_2"]

/-- The steps of the derivation of `stmts`. -/
def script (first : Expr) (others : List Expr) : List Step :=
  listScript first others ++ [.reduce "p_stmts"]

/-- The integers of 64 bits. -/
def InRange (n : Int) : Prop := -2 ^ 63 ≤ n ∧ n ≤ 2 ^ 63 - 1

instance (n : Int) : Decidable (InRange n) := inferInstanceAs (Decidable (_ ∧ _))

theorem int64?_eq (n : Int) : int64? n = if InRange n then some n else none := by
  rw [int64?]
  apply if_congr _ rfl rfl
  rw [InRange]
  omega

namespace Expr

/-- The value of every part is in range. -/
def Fits (e : Expr) : Prop := ∀ part ∈ e.subexpressions, InRange part.value

instance (e : Expr) : Decidable e.Fits :=
  inferInstanceAs (Decidable (∀ part ∈ e.subexpressions, InRange part.value))

theorem fits_numeral {n : Numeral} : (numeral n).Fits ↔ InRange (numeral n).value := by
  simp [Fits, subexpressions]

theorem fits_binary {op : Op} {a b : Expr} :
    (binary op a b).Fits ↔ InRange (op.apply a.value b.value) ∧ a.Fits ∧ b.Fits := by
  simp [Fits, subexpressions, value, or_imp, forall_and]

theorem fits_negation {a : Expr} : (negation a).Fits ↔ InRange (-a.value) ∧ a.Fits := by
  simp [Fits, subexpressions, value]

theorem mem_subexpressions (e : Expr) : e ∈ e.subexpressions := by
  cases e <;> exact List.mem_cons_self

/-- Parentheses leave the value as it is. -/
theorem fits_paren {a : Expr} : (paren a).Fits ↔ a.Fits := by
  simp only [Fits, subexpressions, value, List.forall_mem_cons, and_iff_right_iff_imp]
  intro h
  exact h a a.mem_subexpressions

/-- The value of an expression if it is computed with numbers of 64 bits only. -/
def checked? : Expr → Option Int
  | numeral n => int64? (Nat.ofDigitChars 10 n.digits 0)
  | binary op a b => a.checked?.bind fun m ↦ b.checked?.bind fun n ↦ int64? (op.apply m n)
  | negation a => a.checked?.bind fun n ↦ int64? (-n)
  | paren a => a.checked?

/-- A computation with numbers of 64 bits gets stuck at the first part that is out of range. -/
theorem checked?_eq (e : Expr) : e.checked? = if e.Fits then some e.value else none := by
  induction e with
  | numeral n =>
    rw [checked?, int64?_eq]
    exact if_congr fits_numeral.symm rfl rfl
  | binary op a b iha ihb =>
    rw [checked?, iha, ihb, if_congr fits_binary rfl rfl]
    by_cases ha : a.Fits <;> by_cases hb : b.Fits <;> simp [ha, hb, int64?_eq, value]
  | negation a ih =>
    rw [checked?, ih, if_congr fits_negation rfl rfl]
    by_cases ha : a.Fits <;> simp [ha, int64?_eq, value]
  | paren a ih => rw [checked?, ih, if_congr fits_paren rfl rfl, value]

end Expr

/-! ## Productions -/

/-- What the source declares. -/
def declared : Grammar :=
  { start := "stmts"
    precedence := [⟨.left, ["'+'", "'-'"]⟩, ⟨.left, ["'*'", "'/'"]⟩, ⟨.right, ["UMINUS"]⟩]
    tokens := .ofList ["NUM"]
    families := { list := .ofList ["expr"] }
    rules :=
      [⟨"stmts", "stmts : expr_list", ""⟩, ⟨"expr_1", "expr : expr '+' expr", ""⟩,
        ⟨"expr_2", "expr : expr '-' expr", ""⟩, ⟨"expr_3", "expr : expr '*' expr", ""⟩,
        ⟨"expr_4", "expr : expr '/' expr", ""⟩, ⟨"expr_5", "expr : '-' expr %prec UMINUS", ""⟩,
        ⟨"expr_6", "expr : '(' expr ')'", ""⟩, ⟨"expr_7", "expr : NUM", ""⟩] }

def Op.production (op : Op) : Production :=
  ⟨op.rule, "expr", ["expr", "'" ++ op.sign ++ "'", "expr"], none⟩

def negationRule : Production := ⟨"p_expr_5", "expr", ["'-'", "expr"], some "UMINUS"⟩

def parenRule : Production := ⟨"p_expr_6", "expr", ["'('", "expr", "')'"], none⟩

def numeralRule : Production := ⟨"p_expr_7", "expr", ["NUM"], none⟩

def statementsRule : Production := ⟨"p_stmts", "stmts", ["expr_list"], none⟩

def rules : List Production :=
  [statementsRule, Op.add.production, Op.sub.production, Op.mul.production, Op.div.production,
    negationRule, parenRule, numeralRule]

set_option maxRecDepth 2000 in
theorem declares : sample.Declares declared rules where
  grammar_eq := grammar_eq_of_scan (n := 300) rfl rfl (by decide +kernel)
  productions_eq := by decide +kernel
  rules_free := by decide
  families_free := by decide

theorem hasFamily_expr : sample.definition.registry.HasFamily .commaList "expr" :=
  declares.hasFamily (by decide)

/-! ## Derivations -/

theorem Op.production_mem (op : Op) : op.production ∈ rules := by
  cases op <;> simp [rules]

theorem Op.handler_production (op : Op) : sample.handler op.production.name = binary op.apply := by
  cases op <;> rfl

def Expr.tree : Expr → Tree sample.definition.registry
  | numeral _ => declares.ruleTree (p := numeralRule) (by decide) (.cons .leaf .nil)
  | binary op a b =>
    declares.ruleTree op.production_mem (.cons a.tree (.cons .leaf (.cons b.tree .nil)))
  | negation a =>
    declares.ruleTree (p := negationRule) (by decide) (.cons .leaf (.cons a.tree .nil))
  | paren a =>
    declares.ruleTree (p := parenRule) (by decide) (.cons .leaf (.cons a.tree (.cons .leaf .nil)))

theorem Expr.script_tree (e : Expr) : e.tree.script = e.script := by
  induction e with
  | numeral n => rfl
  | binary op a b iha ihb =>
    simp [tree, Declares.ruleTree, Tree.script, Forest.script, script, iha, ihb, Op.production]
  | negation a ih =>
    simp [tree, Declares.ruleTree, Tree.script, Forest.script, script, ih, negationRule]
  | paren a ih => simp [tree, Declares.ruleTree, Tree.script, Forest.script, script, ih, parenRule]

/-- The derivation of a list of expressions. -/
def tree (first : Expr) (others : List Expr) : Tree sample.definition.registry :=
  declares.ruleTree (p := statementsRule) (by decide)
    (.cons (Tree.list hasFamily_expr first.tree (others.map Expr.tree)) .nil)

theorem script_list (first : Expr) (others : List Expr) :
    (Tree.list hasFamily_expr first.tree (others.map Expr.tree)).script =
      listScript first others := by
  have hfirst : (familyProductions .commaList "expr").1.name = "p_expr_list_1" := by decide
  have hsecond : (familyProductions .commaList "expr").2.name = "p_expr_list_2" := by decide
  induction others generalizing first with
  | nil => rw [List.map_nil, Tree.script_list_nil, first.script_tree, hfirst, listScript]
  | cons next others ih =>
    rw [List.map_cons, Tree.script_list_cons, first.script_tree, ih, hsecond, listScript]

theorem script_tree (first : Expr) (others : List Expr) :
    (tree first others).script = script first others := by
  simp [tree, Declares.ruleTree, Tree.script, Forest.script, script_list, script, statementsRule]

/-- The value of a word of a given text. -/
def wordValue (text : String) : Option Value :=
  if classify text = "NUM" then (readInt64? text.toList).map .num else some .null

/-- The words other than numerals. -/
def signs : List String := ["+", "-", "*", "/", "(", ")", ","]

theorem wordValue_sign {text : String} (h : text ∈ signs) : wordValue text = some .null := by
  have hall : ∀ t ∈ signs, classify t ≠ "NUM" := by decide
  rw [wordValue, if_neg (hall text h)]

theorem Op.sign_mem (op : Op) : op.sign ∈ signs := by
  cases op <;> decide

theorem classify_numeral (n : Numeral) : classify (String.ofList n.digits) = "NUM" := by
  have hsigns : ∀ t ∈ signs, t.toList.all Char.isDigit = false := by decide
  have hnot : String.ofList n.digits ∉ signs := by
    intro hmem
    have hall : n.digits.all Char.isDigit = true := List.all_eq_true.2 n.isDigit
    have hsign := hsigns _ hmem
    rw [String.toList_ofList, hall] at hsign
    cases hsign
  exact if_neg hnot

theorem wordValue_numeral (n : Numeral) :
    wordValue (String.ofList n.digits) = (Expr.numeral n).checked?.map .num := by
  rw [wordValue, if_pos (classify_numeral n), String.toList_ofList,
    readInt64?_of_isDigit n.ne_nil n.isDigit, Expr.checked?]

theorem run_binary (f : Int → Int → Int) (m n : Int) (w : Value) :
    ((binary f).run [.num m, w, .num n]).map Prod.fst = (int64? (f m n)).map .num := by
  rw [binary, Handler.run_compute, Option.map_eq_bind]
  rfl

theorem run_negation (n : Int) (w : Value) :
    (negation.run [w, .num n]).map Prod.fst = (int64? (-n)).map .num := by
  rw [negation, Handler.run_compute, Option.map_eq_bind]
  rfl

theorem yields_sign (text : String) (h : text ∈ signs) :
    (Tree.leaf : Tree sample.definition.registry).Yields lift [wordValue text]
      (some Value.null) := by
  rw [wordValue_sign h]
  exact Tree.yields_leaf _

/-- A derivation comes to the checked value. -/
theorem Expr.yields (e : Expr) :
    e.tree.Yields lift (e.texts.map wordValue) (e.checked?.map .num) := by
  -- A part without a checked value leaves its handler uncalled, so each case is split on the values
  -- of the parts.
  induction e with
  | numeral n =>
    have h := declares.yields_ruleTree (p := numeralRule) (by decide)
      ((Tree.yields_leaf (wordValue (String.ofList n.digits))).cons Forest.yields_nil)
    rw [wordValue_numeral] at h
    rw [tree, texts, List.map_singleton, wordValue_numeral]
    generalize (numeral n).checked? = m? at h ⊢
    cases m? <;> exact h
  | binary op a b iha ihb =>
    have h := declares.yields_ruleTree op.production_mem
      (iha.cons ((yields_sign op.sign op.sign_mem).cons (ihb.cons Forest.yields_nil)))
    rw [op.handler_production, List.append_nil, List.singleton_append] at h
    rw [tree, texts, List.map_append, List.map_cons, checked?]
    generalize a.checked? = m? at h ⊢
    generalize b.checked? = n? at h ⊢
    cases m? with
    | none => exact h
    | some m =>
      cases n? with
      | none => exact h
      | some n =>
        rw [Option.bind_some, Option.bind_some, ← run_binary op.apply m n .null]
        exact h
  | negation a ih =>
    have h := declares.yields_ruleTree (p := negationRule) (by decide)
      ((yields_sign "-" (by decide)).cons (ih.cons Forest.yields_nil))
    rw [List.append_nil, List.singleton_append] at h
    rw [tree, texts, List.map_cons, checked?]
    generalize a.checked? = n? at h ⊢
    cases n? with
    | none => exact h
    | some n =>
      rw [Option.bind_some, ← run_negation n .null]
      exact h
  | paren a ih =>
    have h := declares.yields_ruleTree (p := parenRule) (by decide)
      ((yields_sign "(" (by decide)).cons
        (ih.cons ((yields_sign ")" (by decide)).cons Forest.yields_nil)))
    rw [List.append_nil, List.singleton_append] at h
    rw [tree, texts, List.map_cons, List.map_append, checked?]
    generalize a.checked? = n? at h ⊢
    cases n? <;> exact h

theorem mapM_checked? (es : List Expr) :
    es.mapM (fun e ↦ e.checked?.map Value.num) =
      if ∀ e ∈ es, e.Fits then some (es.map fun e ↦ .num e.value) else none := by
  apply Derivation.mapM_eq_ite
  intro e _
  rw [e.checked?_eq, apply_ite (Option.map Value.num)]
  rfl

theorem yields_tree (first : Expr) (others : List Expr) :
    (tree first others).Yields lift ((texts first others).map wordValue)
      (if ∀ e ∈ first :: others, e.Fits then
        some (.seq ((first :: others).map fun e ↦ .num e.value)) else none) := by
  have hlist := Tree.yields_list (fun _ ↦ rfl) Expr.yields first others hasFamily_expr Value.null
  have h := declares.yields_ruleTree (p := statementsRule) (by decide)
    (hlist.cons Forest.yields_nil)
  have hcomma : wordValue "," = some .null := wordValue_sign (by decide)
  rw [mapM_checked?, List.append_nil, ← hcomma] at h
  have htexts : (texts first others).map wordValue = first.texts.map wordValue ++
      others.flatMap (wordValue "," :: ·.texts.map wordValue) := by
    rw [texts, List.map_append, List.map_flatMap]
    rfl
  rw [htexts]
  by_cases hfits : ∀ e ∈ first :: others, e.Fits
  · rw [if_pos hfits] at h ⊢
    exact h
  · rw [if_neg hfits] at h ⊢
    exact h

/-! ## Words -/

theorem isWord_of_mem_signs {t : String} (h : t ∈ signs) : Words.IsWord t := by
  have hall : ∀ t ∈ signs, t ≠ "" ∧ ' ' ∉ t.toList ∧ '\n' ∉ t.toList := by decide
  exact hall t h

theorem Numeral.isWord (n : Numeral) : Words.IsWord (String.ofList n.digits) := by
  have hnot {c : Char} (hc : c.isDigit = false) : c ∉ (String.ofList n.digits).toList := by
    rw [String.toList_ofList]
    intro hmem
    rw [n.isDigit c hmem] at hc
    cases hc
  refine ⟨?_, hnot (by decide), hnot (by decide)⟩
  simpa using n.ne_nil

theorem Expr.isWord_of_mem_texts {e : Expr} : ∀ t ∈ e.texts, Words.IsWord t := by
  induction e with
  | numeral n => simpa [texts] using n.isWord
  | binary op a b iha ihb =>
    simp only [texts, List.forall_mem_append, List.forall_mem_cons]
    exact ⟨iha, isWord_of_mem_signs op.sign_mem, ihb⟩
  | negation a ih =>
    simp only [texts, List.forall_mem_cons]
    exact ⟨isWord_of_mem_signs (by decide), ih⟩
  | paren a ih =>
    simp only [texts, List.forall_mem_append, List.forall_mem_cons]
    exact ⟨isWord_of_mem_signs (by decide), ih, isWord_of_mem_signs (by decide), nofun⟩

theorem isWord_of_mem_texts {first : Expr} {others : List Expr} :
    ∀ t ∈ texts first others, Words.IsWord t := by
  simp only [texts, List.forall_mem_append, List.mem_flatMap]
  refine ⟨first.isWord_of_mem_texts, ?_⟩
  rintro t ⟨e, -, ht⟩
  rcases List.mem_cons.1 ht with rfl | ht
  · exact isWord_of_mem_signs (by decide)
  · exact e.isWord_of_mem_texts t ht

/-- The calculator is exact: on the words of a list of expressions it returns their values in order
if all parts of all expressions have 64 bits, and it crashes otherwise. -/
theorem parse_expressions (first : Expr) (others : List Expr) :
    ((sample.parser (script first others) .ignored).parse (joinWith " " (texts first others))).1 =
      if ∀ e ∈ first :: others, e.Fits then .ok (.seq ((first :: others).map fun e ↦ .num e.value))
      else .error .crash := by
  have hstart : (tree first others).lhs? = some sample.definition.start := by
    rw [declares.start_eq]
    rfl
  have hwords : (Words.ofString classify (joinWith " " (texts first others))).map lift =
      (texts first others).map wordValue :=
    Words.map_ofString_joinWith classify
      (fun kind text ↦ if kind = "NUM" then (readInt64? text.toList).map Value.num else some .null)
      isWord_of_mem_texts
  have hyields := yields_tree first others
  rw [← hwords] at hyields
  rw [result_of_yields (sample.parser (script first others) .ignored) rfl
    (script_tree first others).symm hstart hyields]
  split <;> rfl

/-- The value of the whole has 64 bits, but the sum in it has not. -/
example :
    let largest : Expr :=
      .numeral ⟨"9223372036854775807".toList, by decide, List.all_eq_true.1 (by decide)⟩
    let one : Expr := .numeral ⟨['1'], by decide, List.all_eq_true.1 (by decide)⟩
    let e : Expr := .binary .sub (.binary .add largest one) one
    joinWith " " (texts e [one]) = "9223372036854775807 + 1 - 1 , 1" ∧
      script e [one] =
        [.shift, .reduce "p_expr_7", .shift, .shift, .reduce "p_expr_7", .reduce "p_expr_1", .shift,
          .shift, .reduce "p_expr_7", .reduce "p_expr_2", .shift, .shift, .reduce "p_expr_7",
          .reduce "p_expr_list_1", .reduce "p_expr_list_2", .reduce "p_stmts"] ∧
      e.value = 2 ^ 63 - 1 ∧ ¬ e.Fits := by
  decide +kernel

end ParserGenerator.Sample.Calculator
