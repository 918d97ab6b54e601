import ParserGenerator.Files.Tree

/-!
# Disks with failures

A disk holds a content at every path where there is a file, and the system may fail any operation on
it. A file is moved at once, so that a move that fails changes nothing, but a file that is written
or copied can be left with any content, or be gone, if the operation is cut short.
-/

namespace ParserGenerator

/-- An operation that the system may fail. -/
inductive FileOperation where
  | read (path : Path)
  | write (path : Path) (text : String)
  | rename (source destination : Path)
  | remove (path : Path)
  | copy (source destination : Path)
deriving DecidableEq

/-- How the system fails an operation. -/
structure FileFailure where
  error : OsError
  /-- What an operation that is cut short leaves at the path that it writes. -/
  remains : Option Content := none

structure Disk where
  files : Path → Option Content
  /-- The absolute path of what a path leads to. -/
  absolute : Path → Except OsError Path
  failure? : FileOperation → Option FileFailure

namespace Disk

/-- Puts a content or nothing at a path. -/
def put (d : Disk) (p : Path) (content : Option Content) : Disk :=
  { d with files := fun q ↦ if q = p then content else d.files q }

def read (d : Disk) (p : Path) : Except OsError String :=
  match d.failure? (.read p) with
  | some f => .error f.error
  | none =>
    match d.files p with
    | none => .error .notFound
    | some (.binary _) => .error .invalidText
    | some (.text s) => .ok s

def write (d : Disk) (p : Path) (text : String) : Except OsError Unit × Disk :=
  match d.failure? (.write p text) with
  | some f => (.error f.error, d.put p f.remains)
  | none => (.ok (), d.put p (some (.text text)))

def rename (d : Disk) (source destination : Path) : Except OsError Unit × Disk :=
  match d.failure? (.rename source destination) with
  | some f => (.error f.error, d)
  | none =>
    match d.files source with
    | none => (.error .notFound, d)
    | some content => (.ok (), (d.put source none).put destination (some content))

def remove (d : Disk) (p : Path) : Except OsError Unit × Disk :=
  match d.failure? (.remove p) with
  | some f => (.error f.error, d)
  | none =>
    match d.files p with
    | none => (.error .notFound, d)
    | some _ => (.ok (), d.put p none)

def copy (d : Disk) (source destination : Path) : Except OsError Unit × Disk :=
  match d.failure? (.copy source destination) with
  | some f => (.error f.error, d.put destination f.remains)
  | none =>
    match d.files source with
    | none => (.error .notFound, d)
    | some content => (.ok (), d.put destination (some content))

instance : FileSystem (StateM Disk) where
  read p := fun d ↦ (d.read p, d)
  write p text := fun d ↦ d.write p text
  rename source destination := fun d ↦ d.rename source destination
  remove p := fun d ↦ d.remove p
  copy source destination := fun d ↦ d.copy source destination
  fileExists p := fun d ↦ ((d.files p).isSome, d)
  canonical p := fun d ↦ (d.absolute p, d)

/-! ## Runs -/

section Run

variable (d : Disk) (p source destination : Path) (text : String)

theorem run_pure {α : Type} (a : α) : (pure a : StateM Disk α).run d = (a, d) := rfl

theorem run_bind {α β : Type} (x : StateM Disk α) (f : α → StateM Disk β) :
    (x >>= f).run d = (f (x.run d).1).run (x.run d).2 := rfl

theorem run_read : (FileSystem.read p : StateM Disk _).run d = (d.read p, d) := rfl

theorem run_write : (FileSystem.write p text : StateM Disk _).run d = d.write p text := rfl

theorem run_rename :
    (FileSystem.rename source destination : StateM Disk _).run d = d.rename source destination :=
  rfl

theorem run_remove : (FileSystem.remove p : StateM Disk _).run d = d.remove p := rfl

theorem run_copy :
    (FileSystem.copy source destination : StateM Disk _).run d = d.copy source destination :=
  rfl

theorem run_fileExists :
    (FileSystem.fileExists p : StateM Disk _).run d = ((d.files p).isSome, d) := rfl

theorem run_canonical : (FileSystem.canonical p : StateM Disk _).run d = (d.absolute p, d) := rfl

end Run

/-! ## What the operations do -/

section Operations

variable {d after : Disk} {p q source destination : Path} {text : String} {e : OsError}

@[simp] theorem files_put_self (content : Option Content) : (d.put p content).files p = content :=
  if_pos rfl

theorem files_put_of_ne (content : Option Content) (h : q ≠ p) :
    (d.put p content).files q = d.files q :=
  if_neg h

/-- A file that can be read holds a text. -/
theorem files_of_read (h : d.read p = .ok text) : d.files p = some (.text text) := by
  unfold read at h
  split at h
  · cases h
  · split at h
    · cases h
    · cases h
    · next s hs =>
      rw [hs, Except.ok.inj h]

theorem write_ok (h : d.write p text = (.ok (), after)) : after = d.put p (some (.text text)) := by
  unfold write at h
  split at h
  · cases h
  · exact (Prod.mk.inj h).2.symm

/-- Only one path is written, even by an operation that fails. -/
theorem files_of_write {answer : Except OsError Unit} (h : d.write p text = (answer, after))
    (hq : q ≠ p) : after.files q = d.files q := by
  unfold write at h
  split at h
  all_goals
    rw [← (Prod.mk.inj h).2]
    exact files_put_of_ne _ hq

theorem rename_ok (h : d.rename source destination = (.ok (), after)) :
    after = (d.put source none).put destination (d.files source) := by
  unfold rename at h
  split at h
  · cases h
  · split at h
    · cases h
    · next content hcontent =>
      rw [hcontent]
      exact (Prod.mk.inj h).2.symm

/-- A file that cannot be moved stays where it is. -/
theorem rename_error (h : d.rename source destination = (.error e, after)) : after = d := by
  unfold rename at h
  split at h
  · exact (Prod.mk.inj h).2.symm
  · split at h
    · exact (Prod.mk.inj h).2.symm
    · cases h

theorem remove_ok (h : d.remove p = (.ok (), after)) : after = d.put p none := by
  unfold remove at h
  split at h
  · cases h
  · split at h
    · cases h
    · exact (Prod.mk.inj h).2.symm

theorem files_of_remove {answer : Except OsError Unit} (h : d.remove p = (answer, after))
    (hq : q ≠ p) : after.files q = d.files q := by
  cases answer with
  | ok =>
    rw [remove_ok h]
    exact files_put_of_ne none hq
  | error e =>
    unfold remove at h
    split at h
    · rw [← (Prod.mk.inj h).2]
    · split at h
      · rw [← (Prod.mk.inj h).2]
      · cases h

/-! ## Disks without failures -/

/-- The system fails no operation. -/
def Reliable (d : Disk) : Prop := ∀ operation, d.failure? operation = none

theorem Reliable.put (h : d.Reliable) (p : Path) (content : Option Content) :
    (d.put p content).Reliable := h

theorem Reliable.write (h : d.Reliable) (p : Path) (text : String) :
    d.write p text = (.ok (), d.put p (some (.text text))) := by
  simp [Disk.write, h (.write p text)]

theorem Reliable.copy (h : d.Reliable) {content : Content} (hsource : d.files source = some content)
    (destination : Path) :
    d.copy source destination = (.ok (), d.put destination (some content)) := by
  simp [Disk.copy, h (.copy source destination), hsource]

end Operations

end Disk

end ParserGenerator
