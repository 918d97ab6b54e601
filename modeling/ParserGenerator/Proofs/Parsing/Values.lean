import ParserGenerator.Proofs.Parsing.Evaluation
import ParserGenerator.Proofs.Registry.Handlers

/-!
# Values of derivations

What a derivation evaluates to depends on the values of its words only, and it is found from the
leaves up: the value of a node is what its handler makes of the values of the children, and a crash
anywhere is a crash of the whole. Optional symbols and sequences are derived by the productions of
their families; a sequence has the values of its items in the order of the text.
-/

namespace ParserGenerator

section Handlers

variable {V : Type} [SemanticValue V]

theorem Reduction.take?_one (result v : V) (others : List V) :
    (⟨result, v :: others⟩ : Reduction V).take? 1 = some (v, ⟨result, null :: others⟩) := by
  simp [take?, get?, slots, put?]

theorem Reduction.take?_last (result : V) (before : List V) (v : V) :
    let r : Reduction V := ⟨result, before ++ [v]⟩
    r.take? (r.size - 1) = some (v, ⟨result, before ++ [null]⟩) := by
  simp [take?, get?, slots, put?, size]

/-- Whatever stands between an item and its tail is left out. -/
theorem Handler.run_cons_append (v : V) (between : List V) (tail : V) :
    Handler.cons.run (v :: (between ++ [tail])) =
      some (ofSeq (v :: (tailItems tail).1), (tailItems tail).2) := by
  have hlast := Reduction.take?_last null (v :: between) tail
  rw [List.cons_append] at hlast
  simp only [Handler.run, Reduction.ofChildren, cons, hlast, List.cons_append,
    Reduction.take?_one]
  rfl

theorem Handler.run_cons (v : V) (between items : List V)
    (h : seq? (ofSeq items) = some items) :
    Handler.cons.run (v :: (between ++ [ofSeq items])) = some (ofSeq (v :: items), []) := by
  rw [run_cons_append, tailItems, h]

theorem Handler.run_compute (f : Reduction V → Option V) (children : List V) :
    ((compute f).run children).map Prod.fst = f (.ofChildren children) := by
  rw [run, compute]
  cases f (.ofChildren children) <;> rfl

/-- The productions of a family are registered with the handlers that go with it. -/
structure Registry.HasFamily (reg : Registry V) (family : Family) (base : String) : Prop where
  first : reg.find? (familyProductions family base).1.name =
    some ⟨(familyProductions family base).1, (familyHandlers family).1⟩
  second : reg.find? (familyProductions family base).2.name =
    some ⟨(familyProductions family base).2, (familyHandlers family).2⟩

end Handlers

namespace Script

open Registry (familyProductions)

variable {V : Type} [SemanticValue V] {registry : Registry V} {lift : Word → Option V}
  {base : String}

/-- On words with the values `leaves` the derivation has the value `v?`, whatever words follow. A
missing value stands for a crash. -/
def Tree.Yields (lift : Word → Option V) (tree : Tree registry) (leaves : List (Option V))
    (v? : Option V) : Prop :=
  ∀ words rest, words.map lift = leaves → tree.eval lift (words ++ rest) = .ofOption v? rest

/-- The same of derivations in a row. -/
def Forest.Yields (lift : Word → Option V) {n : Nat} (forest : Forest registry n)
    (leaves : List (Option V)) (vs? : Option (List V)) : Prop :=
  ∀ words rest, words.map lift = leaves → forest.eval lift (words ++ rest) = .ofOption vs? rest

theorem Tree.yields_leaf (v? : Option V) : (Tree.leaf : Tree registry).Yields lift [v?] v? := by
  intro words rest h
  obtain ⟨word, rfl, rfl⟩ := List.map_eq_singleton_iff.1 h
  rfl

theorem Forest.yields_nil : (Forest.nil : Forest registry 0).Yields lift [] (some []) := by
  intro words rest h
  obtain rfl := List.map_eq_nil_iff.1 h
  rfl

theorem Tree.Yields.cons {n : Nat} {first : Tree registry} {others : Forest registry n}
    {leaves leaves' : List (Option V)} {v? : Option V} {vs? : Option (List V)}
    (h : first.Yields lift leaves v?) (h' : others.Yields lift leaves' vs?) :
    (Forest.cons first others).Yields lift (leaves ++ leaves')
      (v?.bind fun v ↦ vs?.map (v :: ·)) := by
  intro words rest hwords
  obtain ⟨before, after, rfl, hbefore, hafter⟩ := List.map_eq_append_iff.1 hwords
  rw [Forest.eval, List.append_assoc, h before (after ++ rest) hbefore]
  cases v? with
  | none => rfl
  | some v =>
    rw [Evaluation.ofOption, Evaluation.andThen, h' after rest hafter]
    cases vs? <;> rfl

theorem Forest.Yields.node {name : String} {entry : Registered V}
    {found : registry.find? name = some entry}
    {children : Forest registry entry.production.rhs.length} {leaves : List (Option V)}
    {vs? : Option (List V)} (h : children.Yields lift leaves vs?) :
    (Tree.node name entry found children).Yields lift leaves
      (vs?.bind fun vs ↦ (entry.handler.run vs).map Prod.fst) := by
  intro words rest hwords
  rw [Tree.eval, h words rest hwords]
  cases vs? <;> rfl

/-- A parser that follows the script of a derivation comes to its value on a text with just the words
of the derivation, and it crashes if there is no value. -/
theorem result_of_yields (p : Parser V) {tree : Tree p.definition.registry} {text : String}
    {v? : Option V} (hbraces : p.reader.braces = false) (hscript : p.script = tree.script)
    (hroot : tree.lhs? = some p.definition.start)
    (h : tree.Yields p.reader.lift
      ((Words.ofString p.reader.classify text).map p.reader.lift) v?) :
    (p.parse text).1 = v?.elim (.error .crash) .ok := by
  have hfollows := tree.follows hbraces (p.initial (Words.ofString p.reader.classify text))
  have heval := h _ [] rfl
  rw [List.append_nil] at heval
  have hresult : (p.parse text).1 = (run p.definition p.reader (tree.script ++ [])
      (p.initial (Words.ofString p.reader.classify text))).result := by
    rw [List.append_nil, ← hscript]
    rfl
  rw [hresult]
  change Follows _ _ _ _ _ _ (tree.eval _ (Words.ofString p.reader.classify text)) at hfollows
  rw [heval] at hfollows
  cases v? with
  | none => exact hfollows []
  | some v =>
    obtain ⟨events, hrun⟩ := hfollows
    rw [hrun, run]
    have hlast : tree.reductions.getLast? = some p.definition.start :=
      tree.getLast?_reductions.trans hroot
    exact (accept_of_pending_eq_nil hbraces rfl hlast rfl).1

/-! ## Families -/

section Optional

variable (h : registry.HasFamily .optional base)

/-- The derivation of an optional symbol. -/
def Tree.optional : Option (Tree registry) → Tree registry
  | none => .node _ _ h.first .nil
  | some tree => .node _ _ h.second (.cons tree .nil)

theorem Tree.script_optional_none : (Tree.optional h none).script =
    [.reduce (familyProductions .optional base).1.name] := by
  simp [optional, script, Forest.script]

theorem Tree.script_optional_some (tree : Tree registry) : (Tree.optional h (some tree)).script =
    tree.script ++ [.reduce (familyProductions .optional base).2.name] := by
  simp [optional, script, Forest.script]

theorem Tree.yields_optional_none : (Tree.optional h none).Yields lift [] (some null) := by
  have hnode : (Tree.optional h none).Yields lift [] _ := Forest.yields_nil.node
  exact hnode

theorem Tree.Yields.optional {tree : Tree registry} {leaves : List (Option V)} {v? : Option V}
    (ht : tree.Yields lift leaves v?) : (Tree.optional h (some tree)).Yields lift leaves v? := by
  have hnode : (Tree.optional h (some tree)).Yields lift (leaves ++ []) _ :=
    (ht.cons Forest.yields_nil).node
  rw [List.append_nil] at hnode
  cases v? with
  | none => exact hnode
  | some v => exact hnode

end Optional

/-! ### Sequences -/

/-- The derivation of a sequence of at least one item, from the right: `single` derives it from the
last item, and `step` from an item and the sequence after it. -/
def Tree.sequence (single : Tree registry → Tree registry)
    (step : Tree registry → Tree registry → Tree registry) (item : Tree registry) :
    List (Tree registry) → Tree registry
  | [] => single item
  | next :: later => step item (sequence single step next later)

/-- The derivation of a sequence by a string family. -/
def Tree.string (h : registry.HasFamily .string base) (item : Tree registry) :
    List (Tree registry) → Tree registry :=
  sequence (fun item ↦ .node _ _ h.first (.cons item .nil))
    (fun item tail ↦ .node _ _ h.second (.cons item (.cons tail .nil))) item

/-- The derivation of a sequence by a list family with commas between the items. -/
def Tree.list (h : registry.HasFamily .commaList base) (item : Tree registry) :
    List (Tree registry) → Tree registry :=
  sequence (fun item ↦ .node _ _ h.first (.cons item .nil))
    (fun item tail ↦ .node _ _ h.second (.cons item (.cons .leaf (.cons tail .nil)))) item

theorem Tree.script_string_nil (h : registry.HasFamily .string base) (item : Tree registry) :
    (Tree.string h item []).script =
      item.script ++ [.reduce (familyProductions .string base).1.name] := by
  simp [Tree.string, sequence, script, Forest.script]

theorem Tree.script_string_cons (h : registry.HasFamily .string base) (item next : Tree registry)
    (later : List (Tree registry)) :
    (Tree.string h item (next :: later)).script = item.script ++ (Tree.string h next later).script ++
      [.reduce (familyProductions .string base).2.name] := by
  simp [Tree.string, sequence, script, Forest.script]

theorem Tree.script_list_nil (h : registry.HasFamily .commaList base) (item : Tree registry) :
    (Tree.list h item []).script =
      item.script ++ [.reduce (familyProductions .commaList base).1.name] := by
  simp [Tree.list, sequence, script, Forest.script]

theorem Tree.script_list_cons (h : registry.HasFamily .commaList base) (item next : Tree registry)
    (later : List (Tree registry)) :
    (Tree.list h item (next :: later)).script = item.script ++ .shift ::
      (Tree.list h next later).script ++ [.reduce (familyProductions .commaList base).2.name] := by
  simp [Tree.list, sequence, script, Forest.script]

theorem Tree.Yields.last {tree : Tree registry} {leaves : List (Option V)} {v? : Option V}
    (h : tree.Yields lift leaves v?) :
    (Forest.cons tree .nil).Yields lift leaves (v?.map fun v ↦ [v]) := by
  have hrow := h.cons Forest.yields_nil
  rw [List.append_nil] at hrow
  cases v? <;> exact hrow

/-- A derivation with the leaf of a delimiter in front of it. -/
theorem Tree.Yields.delimited {tree : Tree registry} {leaves : List (Option V)} {v? : Option V}
    (h : tree.Yields lift leaves v?) (delimiter : V) :
    (Forest.cons .leaf (.cons tree .nil)).Yields lift (some delimiter :: leaves)
      (v?.map fun v ↦ [delimiter, v]) := by
  have hrow := (yields_leaf (some delimiter)).cons h.last
  cases v? <;> exact hrow

section Sequences

variable {name handler lhs symbol : String} {rest : List String} {prec : Option String}

/-- The derivation of one item becomes a sequence of one item. -/
theorem Tree.Yields.single
    (found : registry.find? name = some ⟨⟨handler, lhs, [symbol], prec⟩, .single⟩)
    {item : Tree registry} {leaves : List (Option V)} {v? : Option V}
    (h : item.Yields lift leaves v?) :
    (Tree.node name _ found (.cons item .nil)).Yields lift leaves
      (v?.map fun v ↦ ofSeq [v]) := by
  have hnode : (Tree.node name _ found (.cons item .nil)).Yields lift leaves _ := h.last.node
  cases v? <;> exact hnode

/-- An item is put in front of a sequence, and the values `between` them are left out. -/
theorem Tree.Yields.prepend (hseq : ∀ items : List V, seq? (ofSeq items) = some items)
    (found : registry.find? name = some ⟨⟨handler, lhs, symbol :: rest, prec⟩, .cons⟩)
    {item : Tree registry} {row : Forest registry rest.length} {leaves leaves' : List (Option V)}
    {v? : Option V} {vs? : Option (List V)} {between : List V} (h : item.Yields lift leaves v?)
    (hrow : row.Yields lift leaves' (vs?.map fun vs ↦ between ++ [ofSeq vs])) :
    (Tree.node name _ found (.cons item row)).Yields lift (leaves ++ leaves')
      (v?.bind fun v ↦ vs?.map fun vs ↦ ofSeq (v :: vs)) := by
  have hnode : (Tree.node name _ found (.cons item row)).Yields lift (leaves ++ leaves') _ :=
    (h.cons hrow).node
  cases v? with
  | none => exact hnode
  | some v =>
    cases vs? with
    | none => exact hnode
    | some vs =>
      simp only [Option.map_some, Option.bind_some] at hnode ⊢
      rw [Handler.run_cons v between vs (hseq vs)] at hnode
      exact hnode

end Sequences

section Families

variable (hseq : ∀ items : List V, seq? (ofSeq items) = some items) {ι : Type}
  {tree : ι → Tree registry} {leaves : ι → List (Option V)} {value? : ι → Option V}
  (hyields : ∀ i, (tree i).Yields lift (leaves i) (value? i)) (first : ι) (others : List ι)

include hseq hyields

/-- A sequence has the values of its items in order, whatever stands between the items. -/
theorem Tree.yields_sequence {one handler lhs symbol : String} {prec : Option String}
    (hone : registry.find? one = some ⟨⟨handler, lhs, [symbol], prec⟩, .single⟩)
    {more handler' lhs' symbol' : String} {rest : List String} {prec' : Option String}
    (hmore : registry.find? more = some ⟨⟨handler', lhs', symbol' :: rest, prec'⟩, .cons⟩)
    (row : Tree registry → Forest registry rest.length) (between : List V)
    (hrow : ∀ (tail : Tree registry) (leaves : List (Option V)) (v? : Option V),
      tail.Yields lift leaves v? →
        (row tail).Yields lift (between.map some ++ leaves) (v?.map fun v ↦ between ++ [v])) :
    (Tree.sequence (fun item ↦ .node one _ hone (.cons item .nil))
        (fun item tail ↦ .node more _ hmore (.cons item (row tail)))
        (tree first) (others.map tree)).Yields lift
      (leaves first ++ others.flatMap (between.map some ++ leaves ·))
      (((first :: others).mapM value?).map ofSeq) := by
  induction others generalizing first with
  | nil =>
    have h := (hyields first).single hone
    rw [List.flatMap_nil, List.append_nil, List.mapM_cons, List.mapM_nil, List.map_nil, sequence]
    cases hvalue : value? first <;> simpa [hvalue] using h
  | cons next others ih =>
    have htail := hrow _ _ _ (ih next)
    rw [Option.map_map] at htail
    have h := (hyields first).prepend hseq hmore htail
    rw [List.flatMap_cons, List.mapM_cons, List.append_assoc, List.map_cons, sequence]
    cases hvalue : value? first <;> cases hvalues : (next :: others).mapM value? <;>
      simpa [hvalue, hvalues] using h

theorem Tree.yields_string (h : registry.HasFamily .string base) :
    (Tree.string h (tree first) (others.map tree)).Yields lift ((first :: others).flatMap leaves)
      (((first :: others).mapM value?).map ofSeq) :=
  yields_sequence hseq hyields first others h.first h.second
    (fun tail ↦ .cons tail .nil) [] fun _ _ _ htail ↦ htail.last

theorem Tree.yields_list (h : registry.HasFamily .commaList base) (comma : V) :
    (Tree.list h (tree first) (others.map tree)).Yields lift
      (leaves first ++ others.flatMap (some comma :: leaves ·))
      (((first :: others).mapM value?).map ofSeq) :=
  yields_sequence hseq hyields first others h.first h.second
    (fun tail ↦ .cons .leaf (.cons tail .nil)) [comma] fun _ _ _ htail ↦ htail.delimited comma

end Families

/-! ### Optional sequences -/

section OptionalString

variable (hopt : registry.HasFamily .optional (FamilyKind.string.derived base))
  (h : registry.HasFamily .string base)

/-- The derivation of a sequence by an optional family on top of a string family: without items the
sequence is absent. -/
def Tree.optionalString : List (Tree registry) → Tree registry
  | [] => Tree.optional hopt none
  | first :: others => Tree.optional hopt (some (Tree.string h first others))

/-- The value of an optional sequence. -/
def optionalSeq : List V → V
  | [] => null
  | first :: others => ofSeq (first :: others)

theorem Tree.yields_optionalString (hseq : ∀ items : List V, seq? (ofSeq items) = some items)
    {ι : Type} {tree : ι → Tree registry} {leaves : ι → List (Option V)} {value : ι → V}
    (hyields : ∀ i, (tree i).Yields lift (leaves i) (some (value i))) (items : List ι) :
    (Tree.optionalString hopt h (items.map tree)).Yields lift (items.flatMap leaves)
      (some (optionalSeq (items.map value))) := by
  cases items with
  | nil => exact yields_optional_none hopt
  | cons first others =>
    have hstring := yields_string hseq hyields first others h
    have hvalues : (first :: others).mapM (fun i ↦ some (value i)) =
        some ((first :: others).map value) := List.mapM_pure
    rw [hvalues] at hstring
    exact hstring.optional hopt

end OptionalString

end Script

end ParserGenerator
