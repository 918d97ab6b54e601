import ParserGenerator.Parsing.Script

/-!
# Scripts evaluate trees

A derivation over the productions of a registry has two readings. Its script lists the actions of a
parser that builds it, a shift for each leaf and a reduction for each node after its children; its
value is computed from the words of the input by recursion over the tree. The engine that follows
the script comes to the value of the tree: the run of a part of the script pushes the values of that
part onto whatever stack it finds, takes just their words, and goes on with whatever is left of the
script.
-/

namespace ParserGenerator.Script

variable {V : Type}

mutual

/-- A derivation over the productions of a registry. A leaf stands for a token. -/
inductive Tree (registry : Registry V) : Type where
  | leaf
  | node (name : String) (entry : Registered V) (found : registry.find? name = some entry)
    (children : Forest registry entry.production.rhs.length)

/-- Derivations in a row. -/
inductive Forest (registry : Registry V) : Nat → Type where
  | nil : Forest registry 0
  | cons {n : Nat} (first : Tree registry) (others : Forest registry n) : Forest registry (n + 1)

end

variable {registry : Registry V}

/-! ## What a parser does -/

mutual

/-- A shift for each leaf and a reduction for each node, after its children. -/
def Tree.script : Tree registry → List Step
  | .leaf => [.shift]
  | .node name _ _ children => children.script ++ [.reduce name]

def Forest.script {n : Nat} : Forest registry n → List Step
  | .nil => []
  | .cons first others => first.script ++ others.script

end

mutual

def Tree.leaves : Tree registry → Nat
  | .leaf => 1
  | .node _ _ _ children => children.leaves

def Forest.leaves {n : Nat} : Forest registry n → Nat
  | .nil => 0
  | .cons first others => first.leaves + others.leaves

end

mutual

/-- The left-hand sides of the nodes, each after those of its children. -/
def Tree.reductions : Tree registry → List String
  | .leaf => []
  | .node _ entry _ children => children.reductions ++ [entry.production.lhs]

def Forest.reductions {n : Nat} : Forest registry n → List String
  | .nil => []
  | .cons first others => first.reductions ++ others.reductions

end

/-- The left-hand side at the root; a leaf has none. -/
def Tree.lhs? : Tree registry → Option String
  | .leaf => none
  | .node _ entry _ _ => some entry.production.lhs

/-! ## The value of a tree -/

/-- What comes of an evaluation that takes its words from a list: a result and the words that are
left, or it runs out of words, or it crashes. -/
inductive Evaluation (α : Type) where
  | value (a : α) (rest : List Word)
  | starved
  | crashed

namespace Evaluation

variable {α β : Type}

/-- The result of a function that may crash. -/
def ofOption (a? : Option α) (rest : List Word) : Evaluation α :=
  match a? with
  | some a => .value a rest
  | none => .crashed

/-- Goes on with the result and the words that are left. -/
def andThen (e : Evaluation α) (next : α → List Word → Evaluation β) : Evaluation β :=
  match e with
  | .value a rest => next a rest
  | .starved => .starved
  | .crashed => .crashed

theorem andThen_eq_value {e : Evaluation α} {next : α → List Word → Evaluation β} {b : β}
    {rest : List Word} (h : e.andThen next = .value b rest) :
    ∃ a between, e = .value a between ∧ next a between = .value b rest := by
  cases e with
  | value a between => exact ⟨a, between, rfl, h⟩
  | starved => cases h
  | crashed => cases h

end Evaluation

section Eval

variable [SemanticValue V] (lift : Word → Option V)

mutual

/-- The value of a leaf is that of the next word; the value of a node is what its handler makes of
the values of its children. -/
def Tree.eval : Tree registry → List Word → Evaluation V
  | .leaf, [] => .starved
  | .leaf, word :: rest => .ofOption (lift word) rest
  | .node _ entry _ children, words =>
    (children.eval words).andThen fun values rest ↦
      .ofOption ((entry.handler.run values).map Prod.fst) rest

/-- The values of trees in a row, from left to right. -/
def Forest.eval {n : Nat} : Forest registry n → List Word → Evaluation (List V)
  | .nil, words => .value [] words
  | .cons first others, words =>
    (first.eval words).andThen fun value rest ↦
      (others.eval rest).andThen fun values rest ↦ .value (value :: values) rest

end

theorem Forest.length_of_eval {n : Nat} : (forest : Forest registry n) → {words : List Word} →
    {values : List V} → {rest : List Word} →
    forest.eval lift words = .value values rest → values.length = n
  | .nil, _, _, _, h => by
    rw [Forest.eval] at h
    cases h
    rfl
  | .cons first others, _, _, _, h => by
    rw [Forest.eval] at h
    obtain ⟨value, between, -, h⟩ := Evaluation.andThen_eq_value h
    obtain ⟨values, rest, hothers, h⟩ := Evaluation.andThen_eq_value h
    cases h
    rw [List.length_cons, others.length_of_eval hothers]

end Eval

/-! ## Words and leaves -/

namespace Evaluation

variable {α β : Type}

/-- The evaluation takes `n` of the words, and it runs out of words if there are fewer. -/
def Takes (n : Nat) (words : List Word) : Evaluation α → Prop
  | .value _ rest => n ≤ words.length ∧ rest = words.drop n
  | .starved => words.length < n
  | .crashed => True

theorem takes_ofOption (a? : Option α) (words : List Word) : (ofOption a? words).Takes 0 words := by
  cases a? with
  | some a => exact ⟨Nat.zero_le _, rfl⟩
  | none => trivial

theorem Takes.andThen {n k : Nat} {words : List Word} {e : Evaluation α}
    {next : α → List Word → Evaluation β} (h : e.Takes n words)
    (hnext : ∀ a rest, (next a rest).Takes k rest) : (e.andThen next).Takes (n + k) words := by
  cases e with
  | value a rest =>
    obtain ⟨hn, rfl⟩ := h
    have hlater := hnext a (words.drop n)
    show (next a (words.drop n)).Takes (n + k) words
    generalize next a (words.drop n) = later at hlater
    cases later with
    | value b rest =>
      rw [Takes, List.length_drop, List.drop_drop] at hlater
      exact ⟨by omega, hlater.2⟩
    | starved =>
      rw [Takes, List.length_drop] at hlater
      show words.length < n + k
      omega
    | crashed => trivial
  | starved => exact Nat.lt_add_right k h
  | crashed => trivial

end Evaluation

section Takes

variable [SemanticValue V] (lift : Word → Option V)

mutual

/-- A tree takes one word for each leaf. -/
theorem Tree.takes_eval : (tree : Tree registry) → (words : List Word) →
    (tree.eval lift words).Takes tree.leaves words
  | .leaf, [] => Nat.zero_lt_one
  | .leaf, word :: rest => by
    rw [Tree.eval, Tree.leaves]
    cases lift word with
    | some value => exact ⟨Nat.le_add_left 1 rest.length, rfl⟩
    | none => trivial
  | .node _ entry _ children, words => by
    rw [Tree.eval, Tree.leaves, ← Nat.add_zero children.leaves]
    apply (children.takes_eval words).andThen
    intro values rest
    exact Evaluation.takes_ofOption _ rest

theorem Forest.takes_eval {n : Nat} : (forest : Forest registry n) → (words : List Word) →
    (forest.eval lift words).Takes forest.leaves words
  | .nil, words => ⟨Nat.zero_le _, rfl⟩
  | .cons first others, words => by
    rw [Forest.eval, Forest.leaves]
    apply (first.takes_eval words).andThen
    intro value rest
    rw [← Nat.add_zero others.leaves]
    apply (others.takes_eval rest).andThen
    intro values rest
    exact ⟨Nat.zero_le _, rfl⟩

end

end Takes

/-! ## Runs -/

section Run

variable [SemanticValue V] {definition : Definition V} {reader : Reader V}

/-- The machine after some steps: they have left `stack`, reduced to `lhss` and left `pending`. -/
def Machine.after (m : Machine V) (stack : List V) (lhss : List String) (pending : List Word)
    (events : List Event) : Machine V :=
  ⟨stack, m.reduced ++ lhss, { m.source with pending }, events⟩

/-- A run of `steps` comes to what an evaluation says, and then the run goes on: with the stack that
belongs to the result, the left-hand sides `lhss` and the words that are left. -/
def Follows (definition : Definition V) (reader : Reader V) (steps : List Step) (m : Machine V)
    (lhss : List String) {α : Type} (stackOf : α → List V) : Evaluation α → Prop
  | .value a rest => ∃ events, ∀ later, run definition reader (steps ++ later) m =
      run definition reader later (m.after (stackOf a) lhss rest events)
  | .starved => ∀ later, (run definition reader (steps ++ later) m).result =
      .error (.error (.unexpected none Words.inputName))
  | .crashed => ∀ later, (run definition reader (steps ++ later) m).result = .error .crash

/-- Runs in a row come to evaluations in a row. -/
theorem Follows.andThen {α β : Type} {m : Machine V} {steps steps' : List Step}
    {lhss lhss' : List String} {stackOf : α → List V} {stackOf' : β → List V} {e : Evaluation α}
    {next : α → List Word → Evaluation β}
    (h : Follows definition reader steps m lhss stackOf e)
    (hnext : ∀ a rest, e = .value a rest → ∀ events,
      Follows definition reader steps' (m.after (stackOf a) lhss rest events) lhss' stackOf'
        (next a rest)) :
    Follows definition reader (steps ++ steps') m (lhss ++ lhss') stackOf' (e.andThen next) := by
  cases e with
  | value a rest =>
    obtain ⟨events, hrun⟩ := h
    have hlater := hnext a rest rfl events
    show Follows definition reader (steps ++ steps') m (lhss ++ lhss') stackOf' (next a rest)
    generalize next a rest = e at hlater
    cases e with
    | value b rest =>
      obtain ⟨events, hrun'⟩ := hlater
      refine ⟨events, ?_⟩
      intro later
      rw [List.append_assoc, hrun, hrun']
      simp [Machine.after]
    | starved =>
      intro later
      rw [List.append_assoc, hrun, hlater]
    | crashed =>
      intro later
      rw [List.append_assoc, hrun, hlater]
  | starved =>
    intro later
    rw [List.append_assoc]
    exact h (steps' ++ later)
  | crashed =>
    intro later
    rw [List.append_assoc]
    exact h (steps' ++ later)

/-- Another way to write down the result. -/
theorem Follows.map {α β : Type} {m : Machine V} {steps : List Step} {lhss : List String}
    {stackOf : α → List V} {stackOf' : β → List V} {e : Evaluation α}
    (h : Follows definition reader steps m lhss stackOf e) {f : α → β}
    (hf : ∀ a, stackOf' (f a) = stackOf a) :
    Follows definition reader steps m lhss stackOf' (e.andThen fun a rest ↦ .value (f a) rest) := by
  cases e with
  | value a rest =>
    obtain ⟨events, hrun⟩ := h
    exact ⟨events, by simpa [hf] using hrun⟩
  | starved => exact h
  | crashed => exact h

theorem follows_shift (hbraces : reader.braces = false) (registry : Registry V) (m : Machine V) :
    Follows definition reader [.shift] m [] (· :: m.stack)
      ((Tree.leaf : Tree registry).eval reader.lift m.source.pending) := by
  cases hpending : m.source.pending with
  | nil =>
    intro later
    simp [run, shift, Source.next, hbraces, hpending]
  | cons word rest =>
    rw [Tree.eval]
    cases hlift : reader.lift word with
    | some value =>
      refine ⟨m.events, ?_⟩
      intro later
      simp [run, shift, Source.next, hbraces, hpending, hlift, Machine.after]
    | none =>
      intro later
      simp [run, shift, Source.next, hbraces, hpending, hlift]

theorem follows_reduce {name : String} {entry : Registered V}
    (hfound : definition.registry.find? name = some entry) {m : Machine V} {values below : List V}
    (hstack : m.stack = values.reverse ++ below)
    (hlength : values.length = entry.production.rhs.length) :
    Follows definition reader [.reduce name] m [entry.production.lhs] (· :: below)
      (.ofOption ((entry.handler.run values).map Prod.fst) m.source.pending) := by
  have hreverse : values.reverse.length = entry.production.rhs.length := by simpa using hlength
  have htake : (m.stack.take entry.production.rhs.length).reverse = values := by
    rw [hstack, List.take_left' hreverse, List.reverse_reverse]
  have hdrop : m.stack.drop entry.production.rhs.length = below := by
    rw [hstack, List.drop_left' hreverse]
  have hle : entry.production.rhs.length ≤ m.stack.length := by
    rw [hstack, List.length_append]
    omega
  cases hrun : entry.handler.run values with
  | some out =>
    refine ⟨m.events ++ .reduction name entry.production.text :: out.2, ?_⟩
    intro later
    simp [run, reduce, hfound, hle, htake, hdrop, Registry.reduce, hlength, hrun, Machine.after]
  | none =>
    intro later
    simp [run, reduce, hfound, hle, htake, Registry.reduce, hlength, hrun]

mutual

/-- The run of the script of a tree pushes the value of the tree. -/
theorem Tree.follows (hbraces : reader.braces = false) :
    (tree : Tree definition.registry) → (m : Machine V) →
    Follows definition reader tree.script m tree.reductions (· :: m.stack)
      (tree.eval reader.lift m.source.pending)
  | .leaf, m => follows_shift hbraces definition.registry m
  | .node name entry found children, m => by
    rw [Tree.eval, Tree.script, Tree.reductions]
    apply (children.follows hbraces m).andThen
    -- The stack is now as high as the right-hand side is long, so the engine finds all children.
    intro values rest heval events
    exact follows_reduce found rfl (children.length_of_eval reader.lift heval)

/-- The run of the scripts of trees in a row pushes their values, the last one on top. -/
theorem Forest.follows (hbraces : reader.braces = false) {n : Nat} :
    (forest : Forest definition.registry n) → (m : Machine V) →
    Follows definition reader forest.script m forest.reductions (·.reverse ++ m.stack)
      (forest.eval reader.lift m.source.pending)
  | .nil, m => ⟨m.events, fun later ↦ by simp [Forest.script, Forest.reductions, Machine.after]⟩
  | .cons first others, m => by
    rw [Forest.eval, Forest.script, Forest.reductions]
    apply (first.follows hbraces m).andThen
    intro value rest _ events
    apply (others.follows hbraces (m.after (value :: m.stack) first.reductions rest events)).map
    intro values
    simp [Machine.after]

end

end Run

/-! ## Parses -/

theorem Tree.getLast?_reductions (tree : Tree registry) : tree.reductions.getLast? = tree.lhs? := by
  cases tree with
  | leaf => rfl
  | node name entry found children => simp [Tree.reductions, Tree.lhs?]

section Accept

variable {reader : Reader V} {m : Machine V}

theorem accept_of_pending_eq_nil (hbraces : reader.braces = false)
    (hpending : m.source.pending = []) {start : String}
    (hreduced : m.reduced.getLast? = some start) {value : V} (hstack : m.stack = [value]) :
    (accept start reader m).result = .ok value ∧
      (accept start reader m).machine.reduced = m.reduced := by
  simp [accept, Source.next, hbraces, hpending, hreduced, hstack]

theorem accept_of_pending_eq_cons (hbraces : reader.braces = false) {word : Word} {rest : List Word}
    (hpending : m.source.pending = word :: rest) (start : String) :
    (accept start reader m).result = .error (.error (.unexpected (some word) Words.inputName)) := by
  simp [accept, Source.next, hbraces, hpending]

end Accept

/-- The machine that a parse starts with. -/
def Parser.initial (p : Parser V) (words : List Word) : Machine V :=
  ⟨[], [], { p.source with pending := words }, []⟩

variable [SemanticValue V]

/-- A parser that follows the script of a tree with the start symbol at its root comes to the value
of the tree if there is a word for each leaf. It asks for more if there are fewer words, and it
refuses the first word that is left if there are more. What earlier parses have left does not
matter. -/
theorem parse_tree (p : Parser V) (tree : Tree p.definition.registry) (text : String)
    (hbraces : p.reader.braces = false) (hscript : p.script = tree.script)
    (hroot : tree.lhs? = some p.definition.start) :
    let words := Words.ofString p.reader.classify text
    tree.eval p.reader.lift words ≠ .crashed →
    (words.length = tree.leaves →
      ∃ value, tree.eval p.reader.lift words = .value value [] ∧ (p.parse text).1 = .ok value ∧
        (p.parse text).2.1.reduced = tree.reductions) ∧
    (words.length < tree.leaves →
      (p.parse text).1 = .error (.error (.syntactic ⟨"<words>", none, none⟩ "At end of input"))) ∧
    (tree.leaves < words.length →
      ∃ word, words[tree.leaves]? = some word ∧
        (p.parse text).1 = .error (.error
          (.syntactic ⟨"<words>", word.line, word.column⟩ ("before: " ++ word.text)))) := by
  intro words hcrash
  have hfollows : Follows p.definition p.reader tree.script (p.initial words) tree.reductions
      ([·]) (tree.eval p.reader.lift words) := tree.follows hbraces (p.initial words)
  have htakes := tree.takes_eval p.reader.lift words
  have hrun : run p.definition p.reader p.script (p.initial words) =
      run p.definition p.reader (tree.script ++ []) (p.initial words) := by
    rw [List.append_nil, hscript]
  have hresult : (p.parse text).1 = (run p.definition p.reader (tree.script ++ [])
      (p.initial words)).result := congrArg Outcome.result hrun
  have hreduced : (p.parse text).2.1.reduced = (run p.definition p.reader (tree.script ++ [])
      (p.initial words)).machine.reduced := congrArg (·.machine.reduced) hrun
  rw [hresult, hreduced]
  cases heval : tree.eval p.reader.lift words with
  | value value rest =>
    rw [heval] at hfollows htakes
    obtain ⟨events, hrun⟩ := hfollows
    obtain ⟨hle, hrest⟩ := htakes
    rw [hrun, run]
    refine ⟨?_, ?_, ?_⟩
    · intro hlength
      have hnil : rest = [] := by rw [hrest, ← hlength, List.drop_length]
      have hlast : tree.reductions.getLast? = some p.definition.start :=
        tree.getLast?_reductions.trans hroot
      refine ⟨value, by rw [hnil], ?_⟩
      exact accept_of_pending_eq_nil hbraces hnil hlast rfl
    · intro hfewer
      omega
    · intro hmore
      refine ⟨words[tree.leaves], List.getElem?_eq_getElem hmore, ?_⟩
      rw [List.drop_eq_getElem_cons hmore] at hrest
      exact accept_of_pending_eq_cons hbraces hrest p.definition.start
  | starved =>
    rw [heval] at hfollows htakes
    have hfewer : words.length < tree.leaves := htakes
    refine ⟨?_, ?_, ?_⟩
    · intro hlength
      omega
    · intro _
      exact hfollows []
    · intro hmore
      omega
  | crashed => exact absurd heval hcrash

/-- A node without children between two leaves, and a parser with a word and a reduction of an
earlier parse: two words have a value, one is too few, and the third of three is refused. -/
theorem parse_tree_gap :
    let pair : Registered Value := ⟨⟨"p_pair", "pair", ["A", "gap", "A"], none⟩, .collect⟩
    let gap : Registered Value := ⟨⟨"p_gap", "gap", [], none⟩, .absent⟩
    let p : Parser Value :=
      { definition := ⟨"pair", ["A"], [], { entries := [pair, gap] }⟩
        reader := { classify := fun _ ↦ "A", lift := fun word ↦ some (.atom word.text) }
        script := [.shift, .reduce "p_gap", .shift, .reduce "p_pair"]
        source := { pending := [⟨"A", "old", 9, 9⟩] }
        reduced := ["old"] }
    (p.parse "a\nb").1 = .ok (.seq [.atom "a", .null, .atom "b"]) ∧
      (p.parse "a\nb").2.1.reduced = ["gap", "pair"] ∧
      (p.parse "a").1 =
        .error (.error (.syntactic ⟨"<words>", none, none⟩ "At end of input")) ∧
      (p.parse "a b\n c").1 =
        .error (.error (.syntactic ⟨"<words>", some 2, some 2⟩ "before: c")) := by
  intro pair gap p
  let tree : Tree p.definition.registry :=
    .node "p_pair" pair rfl (.cons .leaf (.cons (.node "p_gap" gap rfl .nil) (.cons .leaf .nil)))
  have hparse (text : String) := parse_tree p tree text rfl rfl rfl
  have htwo : Words.ofString p.reader.classify "a\nb" = [⟨"A", "a", 1, 1⟩, ⟨"A", "b", 2, 1⟩] := by
    decide +kernel
  have hone : Words.ofString p.reader.classify "a" = [⟨"A", "a", 1, 1⟩] := by
    decide +kernel
  have hthree : Words.ofString p.reader.classify "a b\n c" =
      [⟨"A", "a", 1, 1⟩, ⟨"A", "b", 1, 3⟩, ⟨"A", "c", 2, 2⟩] := by
    decide +kernel
  obtain ⟨value, hvalue, hresult, hreduced⟩ :=
    (hparse "a\nb" (by rw [htwo]; nofun)).1 (by rw [htwo]; rfl)
  have hfewer := (hparse "a" (by rw [hone]; nofun)).2.1 (by rw [hone]; decide)
  obtain ⟨word, hword, hmore⟩ :=
    (hparse "a b\n c" (by rw [hthree]; nofun)).2.2 (by rw [hthree]; decide)
  rw [htwo] at hvalue
  cases hvalue
  rw [hthree] at hword
  cases hword
  exact ⟨hresult, hreduced, hfewer, hmore⟩

end ParserGenerator.Script
