import Mathlib.Data.List.Induction
import ParserGenerator.Parsing.Script
import ParserGenerator.Proofs.Parsing.Scopes

/-!
# Braces as scopes

A parser hands its scopes to its lexer through an adapter, which answers a plain request for a token
by a request with these scopes. The lexer of words that keeps braces for itself begins a scope at an
opening brace, ends one at a closing brace, and asks of every other word whether it is a type.

Whatever the scopes make of that, the words that come out are those that are no braces. What a stack
of scopes still knows of the scopes that were open before the text is told by the least depth
reached so far: a scope below it has been open all the time, and a scope above it was begun by a
brace of the text and declares nothing.
-/

namespace ParserGenerator

/-! ## Lexers and the scopes they report to -/

/-- Scopes as a lexer sees them. A question for a type may have an effect as well. -/
structure ScopeHooks (σ : Type) where
  beginScope : σ → σ
  endScope : σ → σ
  isType : String → σ → Bool × σ

/-- The scopes that a parser owns or goes without. -/
def Hooks.asScopes : ScopeHooks Hooks where
  beginScope := Hooks.beginScope
  endScope := Hooks.endScope
  isType name hooks := (hooks.isType name, hooks)

/-- A lexer with states of one type. -/
structure TokenSource (L : Type) where
  /-- Starts on a text. -/
  input : String → L → L
  token : L → Option Word × L
  /-- The next token, with a report to scopes. -/
  scopedToken {σ : Type} (hooks : ScopeHooks σ) : L × σ → Option Word × L × σ

namespace TokenSource

variable {L σ : Type}

/-- A lexer that takes no notice of scopes. -/
def unscoped (input : String → L → L) (token : L → Option Word × L) : TokenSource L where
  input := input
  token := token
  scopedToken _ state := ((token state.1).1, (token state.1).2, state.2)

/-- The adapter: every token is requested with the given scopes. -/
def withScopes (lexer : TokenSource L) (hooks : ScopeHooks σ) : TokenSource (L × σ) :=
  unscoped (fun text state ↦ (lexer.input text state.1, state.2)) (lexer.scopedToken hooks)

end TokenSource

/-- Pulling until there is nothing left gives the words and leaves a state. -/
inductive Drains {S : Type} (pull : S → Option Word × S) : S → List Word → S → Prop
  | done {s after : S} (h : pull s = (none, after)) : Drains pull s [] after
  | more {s next after : S} {word : Word} {words : List Word} (h : pull s = (some word, next))
    (hwords : Drains pull next words after) : Drains pull s (word :: words) after

namespace Drains

variable {S T : Type} {pull : S → Option Word × S} {s after : S} {words : List Word}

theorem unique (h : Drains pull s words after) {words' : List Word} {after' : S}
    (h' : Drains pull s words' after') : words' = words ∧ after' = after := by
  induction h generalizing words' after' with
  | done hpull =>
    cases h' with
    | done hpull' => exact ⟨rfl, (Prod.mk.inj (hpull'.symm.trans hpull)).2⟩
    | more hpull' _ => cases hpull'.symm.trans hpull
  | more hpull _ ih =>
    cases h' with
    | done hpull' => cases hpull'.symm.trans hpull
    | more hpull' hwords' =>
      obtain ⟨hword, rfl⟩ := Prod.mk.inj (hpull'.symm.trans hpull)
      obtain rfl := Option.some.inj hword
      obtain ⟨rfl, rfl⟩ := ih hwords'
      exact ⟨rfl, rfl⟩

/-- From two states that give the same at the first pull, everything is the same. -/
theorem of_pull_eq {s' : S} (h : Drains pull s' words after) (hpull : pull s = pull s') :
    Drains pull s words after := by
  cases h with
  | done h => exact .done (hpull.trans h)
  | more h hwords => exact .more (hpull.trans h) hwords

/-- States that are seen through a function. -/
theorem map {pull' : T → Option Word × T} {f : S → T}
    (hf : ∀ s, pull' (f s) = Prod.map id f (pull s)) (h : Drains pull s words after) :
    Drains pull' (f s) words (f after) := by
  induction h with
  | done h => exact .done (by rw [hf, h]; rfl)
  | more h _ ih => exact .more (by rw [hf, h]; rfl) ih

end Drains

/-! ## The lexer of words and braces -/

def Word.isBrace (word : Word) : Bool := word.text = "\x7b" || word.text = "\x7d"

namespace ScopeHooks

variable {σ : Type} (hooks : ScopeHooks σ)

/-- What a word does to the types seen and to the scopes. -/
def read (state : List String × σ) (word : Word) : List String × σ :=
  if word.text = "\x7b" then (state.1, hooks.beginScope state.2)
  else if word.text = "\x7d" then (state.1, hooks.endScope state.2)
  else
    let answer := hooks.isType word.text state.2
    (if answer.1 then state.1 ++ [word.text] else state.1, answer.2)

end ScopeHooks

/-- The lexer of words between two tokens. -/
structure BraceWords where
  pending : List Word
  typesSeen : List String

namespace BraceWords

variable {σ : Type}

/-- The first of the words that is no brace. -/
def next (hooks : ScopeHooks σ) (seen : List String) :
    List Word → σ → Option Word × BraceWords × σ
  | [], scopes => (none, ⟨[], seen⟩, scopes)
  | word :: rest, scopes =>
    if word.text = "\x7b" then next hooks seen rest (hooks.beginScope scopes)
    else if word.text = "\x7d" then next hooks seen rest (hooks.endScope scopes)
    else
      let answer := hooks.isType word.text scopes
      (some word, ⟨rest, if answer.1 then seen ++ [word.text] else seen⟩, answer.2)

/-- The lexer of words that keeps braces for itself. Without scopes it hands them out. -/
def lexer (classify : String → String) : TokenSource BraceWords where
  input text words := { words with pending := Words.ofString classify text }
  token words :=
    match words.pending with
    | [] => (none, words)
    | word :: rest => (some word, { words with pending := rest })
  scopedToken hooks state := next hooks state.1.typesSeen state.1.pending state.2

/-- The source of a parser from the two things that it consists of. -/
def source (state : BraceWords × Hooks) : Script.Source :=
  ⟨state.1.pending, state.1.typesSeen, state.2⟩

theorem next_source_mk (seen : List String) (pending : List Word) (hooks : Hooks) :
    (source (⟨pending, seen⟩, hooks)).next true =
      Prod.map id source (next Hooks.asScopes seen pending hooks) := by
  induction pending generalizing hooks with
  | nil => rfl
  | cons word rest ih =>
    rw [next]
    split_ifs with hopen hclose
    · calc (source (⟨word :: rest, seen⟩, hooks)).next true
        _ = (source (⟨rest, seen⟩, hooks.beginScope)).next true := by
          simp only [Script.Source.next, source, Words.nextOutsideBraces, if_pos hopen, if_true]
        _ = _ := ih _
    · calc (source (⟨word :: rest, seen⟩, hooks)).next true
        _ = (source (⟨rest, seen⟩, hooks.endScope)).next true := by
          simp only [Script.Source.next, source, Words.nextOutsideBraces, if_neg hopen,
            if_pos hclose, if_true]
        _ = _ := ih _
    · simp only [Script.Source.next, source, Words.nextOutsideBraces, if_neg hopen, if_neg hclose]
      rfl

/-- The source of a parser with scopes is this lexer behind the adapter. -/
theorem next_source (classify : String → String) (state : BraceWords × Hooks) :
    (source state).next true =
      Prod.map id source (((lexer classify).withScopes Hooks.asScopes).token state) :=
  next_source_mk state.1.typesSeen state.1.pending state.2

/-- A brace is passed over. -/
theorem next_cons_of_isBrace (hooks : ScopeHooks σ) (seen : List String) {word : Word}
    (h : word.isBrace = true) (rest : List Word) (scopes : σ) :
    next hooks seen (word :: rest) scopes =
      next hooks (hooks.read (seen, scopes) word).1 rest (hooks.read (seen, scopes) word).2 := by
  rw [next, ScopeHooks.read]
  split_ifs with hopen hclose
  · rfl
  · rfl
  · simp [Word.isBrace, hopen, hclose] at h

theorem next_cons_of_not_isBrace (hooks : ScopeHooks σ) (seen : List String) {word : Word}
    (h : word.isBrace = false) (rest : List Word) (scopes : σ) :
    next hooks seen (word :: rest) scopes =
      (some word, ⟨rest, (hooks.read (seen, scopes) word).1⟩,
        (hooks.read (seen, scopes) word).2) := by
  simp only [Word.isBrace, Bool.or_eq_false_iff, decide_eq_false_iff_not] at h
  rw [next, ScopeHooks.read, if_neg h.1, if_neg h.2, if_neg h.1, if_neg h.2]

/-- Whatever the scopes are, pulling hands out the words that are no braces, and every word takes
its effect in turn. -/
theorem drains_lexer (classify : String → String) (hooks : ScopeHooks σ) (words : List Word)
    (seen : List String) (scopes : σ) :
    Drains ((lexer classify).withScopes hooks).token (⟨words, seen⟩, scopes)
      (words.filter (!·.isBrace))
      (⟨[], (words.foldl hooks.read (seen, scopes)).1⟩,
        (words.foldl hooks.read (seen, scopes)).2) := by
  induction words generalizing seen scopes with
  | nil => exact .done rfl
  | cons word rest ih =>
    have hrest := ih (hooks.read (seen, scopes) word).1 (hooks.read (seen, scopes) word).2
    cases hbrace : word.isBrace with
    | true =>
      rw [List.filter_cons_of_neg (by simp [hbrace])]
      exact hrest.of_pull_eq (next_cons_of_isBrace hooks seen hbrace rest scopes)
    | false =>
      rw [List.filter_cons_of_pos (by simp [hbrace])]
      exact .more (next_cons_of_not_isBrace hooks seen hbrace rest scopes) hrest

end BraceWords

/-! ## Depths -/

/-- The depth after a word. The outermost scope is never left. -/
def Word.depthAfter (depth : Nat) (word : Word) : Nat :=
  if word.text = "\x7b" then depth + 1
  else if word.text = "\x7d" then max (depth - 1) 1
  else depth

namespace Words

/-- The depth after the first words. -/
def depth (start : Nat) (words : List Word) (i : Nat) : Nat :=
  (words.take i).foldl Word.depthAfter start

/-- The least of the depths so far. -/
def leastDepth (start : Nat) (words : List Word) (i : Nat) : Nat :=
  ((List.range (i + 1)).map (depth start words)).foldl min start

/-- The texts of the words that are recorded: those that are no braces and are types in the scopes
that have been open all the time. -/
def typesOutside (s : ScopeStack) (words : List Word) : List String :=
  (words.zipIdx.filter fun p ↦
    !p.1.isBrace && ScopeRow.isType (s.row.take (leastDepth s.depth words p.2)) p.1.text).map
      (·.1.text)

variable (start : Nat) {words : List Word} (word : Word)

theorem depth_concat_of_le {i : Nat} (h : i ≤ words.length) :
    depth start (words ++ [word]) i = depth start words i := by
  rw [depth, List.take_append_of_le_length h, depth]

theorem depth_concat (words : List Word) :
    depth start (words ++ [word]) (words.length + 1) =
      word.depthAfter (depth start words words.length) := by
  simp [depth, List.take_of_length_le]

theorem leastDepth_succ (words : List Word) (i : Nat) :
    leastDepth start words (i + 1) =
      min (leastDepth start words i) (depth start words (i + 1)) := by
  rw [leastDepth, List.range_succ, List.map_append, List.foldl_append]
  rfl

theorem leastDepth_concat_of_le {i : Nat} (h : i ≤ words.length) :
    leastDepth start (words ++ [word]) i = leastDepth start words i := by
  have hmap : (List.range (i + 1)).map (depth start (words ++ [word])) =
      (List.range (i + 1)).map (depth start words) := by
    apply List.map_congr_left
    intro j hj
    rw [List.mem_range] at hj
    exact depth_concat_of_le start word (by omega)
  rw [leastDepth, hmap, leastDepth]

theorem leastDepth_concat (words : List Word) :
    leastDepth start (words ++ [word]) (words.length + 1) =
      min (leastDepth start words words.length)
        (word.depthAfter (depth start words words.length)) := by
  rw [leastDepth_succ, leastDepth_concat_of_le start word (Nat.le_refl _), depth_concat]

theorem typesOutside_concat (s : ScopeStack) (words : List Word) :
    typesOutside s (words ++ [word]) =
      typesOutside s words ++
        if !word.isBrace &&
          ScopeRow.isType (s.row.take (leastDepth s.depth words words.length)) word.text
        then [word.text] else [] := by
  have hbefore : ∀ p ∈ words.zipIdx,
      leastDepth s.depth (words ++ [word]) p.2 = leastDepth s.depth words p.2 := by
    intro p hp
    obtain ⟨-, hlt, -⟩ := List.mem_zipIdx hp
    exact leastDepth_concat_of_le s.depth word (by omega)
  have hlast := leastDepth_concat_of_le s.depth word (Nat.le_refl words.length)
  rw [typesOutside, List.zipIdx_append, List.filter_append, List.map_append, typesOutside,
    List.filter_congr fun p hp ↦ by rw [hbefore p hp]]
  congr 1
  simp only [List.zipIdx_singleton, Nat.zero_add, List.filter_cons, List.filter_nil, hlast]
  split <;> rfl

end Words

/-! ## Stacks of scopes -/

namespace ScopeStack

theorem length_row (s : ScopeStack) : s.row.length = s.depth := by
  simp [row_eq, depth]

theorem row_push (s : ScopeStack) : s.push.row = s.row ++ [[]] :=
  (Prod.mk.inj (perform_row s .push)).2.symm

theorem row_pop (s : ScopeStack) : s.pop.row = if 1 < s.depth then s.row.dropLast else s.row := by
  rw [← length_row]
  exact (Prod.mk.inj (perform_row s .pop)).2.symm

/-- A stack that has kept the outermost scopes of another one and begun empty scopes in them. -/
structure Keeps (s t : ScopeStack) (least depth : Nat) : Prop where
  row_eq : t.row = s.row.take least ++ List.replicate (depth - least) []
  pos : 0 < least
  le_depth : least ≤ depth
  le_start : least ≤ s.depth

namespace Keeps

variable {s t : ScopeStack} {least depth : Nat}

theorem refl (s : ScopeStack) : Keeps s s s.depth s.depth where
  row_eq := by simp [← length_row]
  pos := Nat.succ_pos _
  le_depth := Nat.le_refl _
  le_start := Nat.le_refl _

theorem depth_eq (h : Keeps s t least depth) : t.depth = depth := by
  have hle := h.le_depth
  have hstart := h.le_start
  rw [← length_row, h.row_eq, List.length_append, List.length_take, length_row,
    List.length_replicate]
  omega

theorem push (h : Keeps s t least depth) : Keeps s t.push least (depth + 1) where
  row_eq := by
    have hle := h.le_depth
    rw [row_push, h.row_eq, List.append_assoc, ← List.replicate_succ', Nat.succ_sub hle]
  pos := h.pos
  le_depth := Nat.le_succ_of_le h.le_depth
  le_start := h.le_start

theorem pop (h : Keeps s t least depth) :
    Keeps s t.pop (min least (max (depth - 1) 1)) (max (depth - 1) 1) := by
  obtain ⟨hrow, hpos, hle, hstart⟩ := id h
  refine ⟨?_, by omega, by omega, by omega⟩
  rw [row_pop, h.depth_eq, hrow]
  split_ifs with hdepth
  · -- Cutting both parts of the row to the new depth leaves fewer of the kept scopes only if there
    -- is no empty scope to leave.
    have hmax : max (depth - 1) 1 = depth - 1 := by omega
    have hlength : (s.row.take least ++ List.replicate (depth - least) []).length = depth := by
      rw [← hrow, length_row, h.depth_eq]
    have htake : (s.row.take least).length = least := by
      rw [List.length_take, length_row]
      omega
    rw [hmax, List.dropLast_eq_take, hlength, List.take_append, htake, List.take_take,
      List.take_replicate]
    congr 2
    · omega
    · omega
  · obtain rfl : depth = 1 := by omega
    obtain rfl : least = 1 := by omega
    rfl

theorem isType (h : Keeps s t least depth) (name : String) :
    t.isType name = ScopeRow.isType (s.row.take least) name := by
  rw [← isType_row, h.row_eq]
  simp [ScopeRow.isType, List.findSome?_append, List.findSome?_replicate]

/-- What a word does to the types seen and to the stack. -/
theorem read (h : Keeps s t least depth) (seen : List String) (word : Word) :
    ∃ t', Hooks.asScopes.read (seen, .tracked t) word =
        (seen ++ if !word.isBrace && ScopeRow.isType (s.row.take least) word.text
          then [word.text] else [], .tracked t') ∧
      Keeps s t' (min least (word.depthAfter depth)) (word.depthAfter depth) := by
  have hle := h.le_depth
  by_cases hopen : word.text = "\x7b"
  · refine ⟨t.push, by simp [ScopeHooks.read, Word.isBrace, hopen, Hooks.asScopes,
      Hooks.beginScope], ?_⟩
    rw [Word.depthAfter, if_pos hopen, Nat.min_eq_left (Nat.le_succ_of_le hle)]
    exact h.push
  by_cases hclose : word.text = "\x7d"
  · refine ⟨t.pop, by simp [ScopeHooks.read, Word.isBrace, hclose, Hooks.asScopes,
      Hooks.endScope], ?_⟩
    rw [Word.depthAfter, if_neg hopen, if_pos hclose]
    exact h.pop
  · refine ⟨t, ?_, ?_⟩
    · have hbrace : word.isBrace = false := by simp [Word.isBrace, hopen, hclose]
      have hanswer : Hooks.asScopes.isType word.text (.tracked t) =
          (ScopeRow.isType (s.row.take least) word.text, .tracked t) :=
        Prod.ext (h.isType word.text) rfl
      simp only [ScopeHooks.read, if_neg hopen, if_neg hclose, hanswer, hbrace, Bool.not_false,
        Bool.true_and]
      split <;> simp
    · rw [Word.depthAfter, if_neg hopen, if_neg hclose, Nat.min_eq_left hle]
      exact h

end Keeps

/-- A text is read word by word. -/
theorem exists_foldl_read (s : ScopeStack) (words : List Word) (seen : List String) :
    ∃ t, words.foldl Hooks.asScopes.read (seen, .tracked s) =
        (seen ++ Words.typesOutside s words, .tracked t) ∧
      Keeps s t (Words.leastDepth s.depth words words.length)
        (Words.depth s.depth words words.length) := by
  -- Depths are counted from the start of the text, so words are added at its end.
  induction words using List.reverseRecOn with
  | nil =>
    have hleast : Words.leastDepth s.depth [] 0 = s.depth := Nat.min_self _
    refine ⟨s, by simp [Words.typesOutside], ?_⟩
    rw [List.length_nil, hleast]
    exact Keeps.refl s
  | append_singleton words word ih =>
    obtain ⟨t, hread, hkeeps⟩ := ih
    obtain ⟨t', hword, hkeeps'⟩ := hkeeps.read (seen ++ Words.typesOutside s words) word
    refine ⟨t', ?_, ?_⟩
    · rw [List.foldl_append, hread, Words.typesOutside_concat, ← List.append_assoc]
      exact hword
    · rw [List.length_append, List.length_singleton, Words.depth_concat, Words.leastDepth_concat]
      exact hkeeps'

end ScopeStack

/-! ## Whole texts -/

/-- The lexer that keeps braces for itself, started on a text. Whatever scopes it reports to through
the adapter, pulling until the end gives the words of the text that are no braces, as they are. With
a parser's stack of scopes, which is what the source of the parser does, the depth in the end is the
one that the words lead to, and a word is recorded if and only if it is a type in those outermost
scopes of the stack that the least depth so far has left open. -/
theorem drains_outside_braces (classify : String → String) (text : String) (old : BraceWords) :
    let words := Words.ofString classify text
    let outside := words.filter (!·.isBrace)
    (∀ {σ : Type} (hooks : ScopeHooks σ) (scopes : σ) (drained : List Word),
      let lexer := (BraceWords.lexer classify).withScopes hooks
      (∃ after, Drains lexer.token (lexer.input text (old, scopes)) drained after) ↔
        drained = outside) ∧
    (∀ state : BraceWords × Hooks, (BraceWords.source state).next true =
      Prod.map id BraceWords.source
        (((BraceWords.lexer classify).withScopes Hooks.asScopes).token state)) ∧
    ∀ s : ScopeStack, ∃ t : ScopeStack,
      t.depth = Words.depth s.depth words words.length ∧
      ∀ drained after,
        Drains (Script.Source.next true) ⟨words, old.typesSeen, .tracked s⟩ drained after ↔
          drained = outside ∧
            after = ⟨[], old.typesSeen ++ Words.typesOutside s words, .tracked t⟩ := by
  intro words outside
  refine ⟨?_, BraceWords.next_source classify, ?_⟩
  · intro σ hooks scopes drained lexer
    have hdrains := BraceWords.drains_lexer classify hooks words old.typesSeen scopes
    constructor
    · rintro ⟨after, h⟩
      exact (hdrains.unique h).1
    · rintro rfl
      exact ⟨_, hdrains⟩
  · intro s
    obtain ⟨t, hread, hkeeps⟩ := s.exists_foldl_read words old.typesSeen
    have hlexer := BraceWords.drains_lexer classify Hooks.asScopes words old.typesSeen (.tracked s)
    have hsource := hlexer.map (BraceWords.next_source classify)
    rw [hread] at hsource
    refine ⟨t, hkeeps.depth_eq, fun drained after ↦ ⟨hsource.unique, ?_⟩⟩
    rintro ⟨rfl, rfl⟩
    exact hsource

/-- The scope that declares `a` is left by the first closing brace. The scope that is begun later
does not bring it back, and the outermost scope stays. -/
example :
    Words.typesOutside ⟨[("a", true)], [[("b", true)]]⟩
      (Words.ofString (fun _ ↦ "ID") "a b \x7d a b \x7b a b \x7d \x7d b") =
        ["a", "b", "b", "b", "b"] := by
  decide

end ParserGenerator
