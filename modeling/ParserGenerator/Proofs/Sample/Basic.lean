import ParserGenerator.Proofs.Derivation.Scanning
import ParserGenerator.Proofs.Parsing.Values
import ParserGenerator.Sample.Basic

/-!
# Registries of samples

The registry of a sample is that of its grammar, in which every rule is found with the handler of
the sample and every family with its own. A derivation in a sample is made of these productions.
-/

namespace ParserGenerator.Sample

open Registry Script

variable {V : Type}

theorem grammar_eq_of_scan {s : Sample V} {source : String} {cs : List Char} {n : Nat}
    {g : Grammar} (hgrammar : s.grammar = grammarOf source []) (hsource : source = String.ofList cs)
    (h : Grammar.scan n {} cs = some g) : s.grammar = g := by
  rw [← String.toList_ofList (l := cs), ← hsource] at h
  obtain ⟨faults, hparse⟩ := Grammar.parse_of_scan h
  rw [hgrammar, grammarOf, hparse]
  rfl

variable [SemanticValue V]

/-- A sample has the grammar `g`, and its registry holds the productions `rules`, the one for the
empty text and those of the families. No rule shares a name with a family. -/
structure Declares (s : Sample V) (g : Grammar) (rules : List Production) : Prop where
  grammar_eq : s.grammar = g
  productions_eq : (Definition.register g s.handler).registry.productions =
    rules ++ ⟨"p_empty", "empty", [], none⟩ :: (familiesOf g.families).flatMap productionsOf
  rules_free : ∀ f ∈ familiesOf g.families, ∀ p ∈ rules,
    p.name ∉ derivedNames (f.2.derived f.1)
  families_free : ∀ f ∈ familiesOf g.families, ∀ p ∈ productionsOf f,
    p.name ∉ (Module.entries g).map Module.Entry.handler

namespace Declares

variable {s : Sample V} {g : Grammar} {rules : List Production} (h : s.Declares g rules)

include h

theorem start_eq : s.definition.start = g.start := by
  rw [← h.grammar_eq]
  rfl

theorem registry_eq : s.definition.registry = (Definition.register g s.handler).registry := by
  rw [← h.grammar_eq]
  rfl

theorem find?_rule {p : Production} (hp : p ∈ rules) :
    s.definition.registry.find? p.name = some ⟨p, s.handler p.name⟩ := by
  rw [h.registry_eq]
  apply Definition.find?_register_of_rule
  · exact h.productions_eq ▸ List.mem_append_left _ hp
  · exact fun f hf ↦ h.rules_free f hf p hp

theorem hasFamily {base : String} {family : Family} (hf : (base, family) ∈ familiesOf g.families) :
    s.definition.registry.HasFamily family base := by
  have hfind {e : Registered V} (he : e ∈ familyEntries family base)
      (hmem : e.production ∈ productionsOf (base, family)) :
      s.definition.registry.find? e.production.name = some e := by
    rw [h.registry_eq]
    apply Definition.find?_register_of_family he _ (h.families_free _ hf _ hmem)
    rw [h.productions_eq]
    exact List.mem_append_right _ (List.mem_cons_of_mem _ (List.mem_flatMap_of_mem hf hmem))
  constructor
  · exact hfind List.mem_cons_self List.mem_cons_self
  · exact hfind (List.mem_cons_of_mem _ List.mem_cons_self)
      (List.mem_cons_of_mem _ List.mem_cons_self)

/-- A derivation by the production of a rule. -/
def ruleTree {p : Production} (hp : p ∈ rules)
    (children : Forest s.definition.registry p.rhs.length) : Tree s.definition.registry :=
  .node _ _ (h.find?_rule hp) children

theorem yields_ruleTree {p : Production} (hp : p ∈ rules)
    {children : Forest s.definition.registry p.rhs.length} {leaves : List (Option V)}
    {vs? : Option (List V)} (hchildren : children.Yields s.lift leaves vs?) :
    (h.ruleTree hp children).Yields s.lift leaves
      (vs?.bind fun vs ↦ ((s.handler p.name).run vs).map Prod.fst) :=
  hchildren.node

end Declares

end ParserGenerator.Sample
