/-!
# Name sets in order of insertion

A set of names that remembers the order in which they were first inserted.
-/

namespace ParserGenerator

structure NameSet where
  names : List String
  nodup : names.Nodup
deriving DecidableEq

namespace NameSet

def empty : NameSet := ⟨[], List.nodup_nil⟩

instance : Inhabited NameSet := ⟨empty⟩

instance : Membership String NameSet := ⟨fun s name ↦ name ∈ s.names⟩

instance (name : String) (s : NameSet) : Decidable (name ∈ s) :=
  inferInstanceAs (Decidable (name ∈ s.names))

/-- A new name goes to the end; a name that is there already keeps its place. -/
def insert (s : NameSet) (name : String) : NameSet :=
  if h : name ∈ s.names then s
  else
    { names := s.names ++ [name]
      nodup := by
        rw [List.nodup_append]
        refine ⟨s.nodup, by simp, ?_⟩
        rintro a ha b hb rfl
        exact h ((List.mem_singleton.1 hb) ▸ ha) }

def insertAll (s : NameSet) (names : List String) : NameSet := names.foldl insert s

def ofList (names : List String) : NameSet := empty.insertAll names

def isEmpty (s : NameSet) : Bool := s.names.isEmpty

theorem mem_def {name : String} {s : NameSet} : name ∈ s ↔ name ∈ s.names := Iff.rfl

theorem names_insert (s : NameSet) (name : String) :
    (s.insert name).names = if name ∈ s then s.names else s.names ++ [name] := by
  unfold insert
  split <;> simp_all [mem_def]

@[simp] theorem mem_insert {s : NameSet} {name a : String} :
    a ∈ s.insert name ↔ a ∈ s ∨ a = name := by
  simp only [mem_def, names_insert]
  split <;> simp_all

end NameSet

end ParserGenerator
