import ParserGenerator.Files.Compile
import ParserGenerator.Proofs.Files.Disk

/-!
# Compiling a file is all or nothing

Compiling a file reads one path, writes the temporary file next to the output, and moves it into
place or removes it. Whatever the system fails, the output is the new module, or it is what it was
before.
-/

namespace ParserGenerator

theorem temporary_ne (output : Path) : temporary output ≠ output := by
  intro h
  have hlength : (temporary output).length = output.length := congrArg String.length h
  have hsuffix : (temporary output).length = output.length + 4 :=
    String.length_append output ".tmp"
  omega

namespace Disk

/-- The ways in which writing a module by way of the temporary file can end. -/
inductive Publishes (d : Disk) (output : Path) (text : String) :
    Except FileError Unit → Disk → Prop
  | unwritten {after : Disk} {e : OsError}
    (hwrite : d.write (temporary output) text = (.error e, after)) :
    Publishes d output text (.error (.io (temporary output) e)) after
  | unmoved {written after : Disk} {e : OsError} {removed : Except OsError Unit}
    (hwrite : d.write (temporary output) text = (.ok (), written))
    (hmove : written.rename (temporary output) output = (.error e, written))
    (hremove : written.remove (temporary output) = (removed, after)) :
    Publishes d output text (.error (.io output e)) after
  | published {written after : Disk}
    (hwrite : d.write (temporary output) text = (.ok (), written))
    (hmove : written.rename (temporary output) output = (.ok (), after)) :
    Publishes d output text (.ok ()) after

/-- The ways in which compiling a file can end. -/
inductive Compiles (d : Disk) (input output : Path) (o : Options) :
    Except FileError Unit → Disk → Prop
  | unread {e : OsError} (hread : d.read input = .error e) :
    Compiles d input output o (.error (.io input e)) d
  | refused {source : String} {e : CompileError} (hread : d.read input = .ok source)
    (hcompile : compile source o = .error e) :
    Compiles d input output o (.error (.compile e)) d
  | generated {source text : String} {answer : Except FileError Unit} {after : Disk}
    (hread : d.read input = .ok source) (hcompile : compile source o = .ok text)
    (hpublish : Publishes d output text answer after) :
    Compiles d input output o answer after

/-- The answer of compiling a file, and the disk after it. -/
def compiled (d : Disk) (input output : Path) (o : Options) : Except FileError Unit × Disk :=
  let run := (compileFile input output o : StateM Disk _).run d
  (run.1.answer, run.2)

/-! ## Every run ends in one of these ways -/

variable {d after : Disk} {input output path : Path} {o : Options} {source text : String}
  {answer : Except FileError Unit}

theorem publishes_writeModule (d : Disk) (output : Path) (text : String) :
    Publishes d output text ((writeModule output text : StateM Disk _).run d).1
      ((writeModule output text : StateM Disk _).run d).2 := by
  rcases hwrite : d.write (temporary output) text with ⟨_ | _, written⟩
  · simp only [writeModule, run_bind, run_write, hwrite, run_pure]
    exact .unwritten hwrite
  · rcases hmove : written.rename (temporary output) output with ⟨_ | _, moved⟩
    · simp only [writeModule, publish, run_bind, run_write, run_rename, run_remove, hwrite, hmove,
        run_pure]
      -- The disk is still the one that was written, with the temporary file on it.
      obtain rfl := rename_error hmove
      exact .unmoved hwrite hmove rfl
    · simp only [writeModule, publish, run_bind, run_write, run_rename, hwrite, hmove, run_pure]
      exact .published hwrite hmove

theorem compiles_compiled (d : Disk) (input output : Path) (o : Options) :
    Compiles d input output o (d.compiled input output o).1 (d.compiled input output o).2 := by
  unfold compiled
  cases hread : d.read input with
  | error e =>
    simp only [compileFile, run_bind, run_read, hread, run_pure]
    exact .unread hread
  | ok source =>
    cases hcompile : compile source o with
    | error e =>
      simp only [compileFile, run_bind, run_read, hread, hcompile, run_pure]
      exact .refused hread hcompile
    | ok text =>
      simp only [compileFile, run_bind, run_read, hread, hcompile, run_pure]
      exact .generated hread hcompile (publishes_writeModule d output text)

/-! ## What is left behind -/

/-- A failure changes nothing but the temporary file. -/
theorem Publishes.files_of_error {e : FileError} (h : Publishes d output text (.error e) after)
    (hpath : path ≠ temporary output) : after.files path = d.files path := by
  cases h with
  | unwritten hwrite => exact files_of_write hwrite hpath
  | unmoved hwrite hmove hremove =>
    rw [files_of_remove hremove hpath, files_of_write hwrite hpath]

/-- A temporary file that cannot be moved is removed, if it can be. -/
theorem Publishes.of_unmoved (h : Publishes d output text answer after) {written : Disk}
    {e : OsError} (hwrite : d.write (temporary output) text = (.ok (), written))
    (hmove : (written.rename (temporary output) output).1 = .error e) :
    answer = .error (.io output e) ∧
      ((written.remove (temporary output)).1 = .ok () →
        after.files (temporary output) = none) := by
  cases h with
  | unwritten hwrite' =>
    rw [hwrite] at hwrite'
    cases hwrite'
  | unmoved hwrite' hmove' hremove =>
    rw [hwrite] at hwrite'
    cases hwrite'
    rw [hmove'] at hmove
    refine ⟨by rw [Except.error.inj hmove], ?_⟩
    intro hremoved
    rw [hremove] at hremoved
    obtain rfl : _ = Except.ok () := hremoved
    rw [remove_ok hremove, files_put_self]
  | published hwrite' hmove' =>
    rw [hwrite] at hwrite'
    cases hwrite'
    rw [hmove'] at hmove
    cases hmove

/-- Success leaves the module in the place of the output, and everything else as it was. -/
theorem Publishes.files_of_ok (h : Publishes d output text (.ok ()) after) :
    after.files output = some (.text text) ∧ after.files (temporary output) = none ∧
      ∀ path, path ≠ output → path ≠ temporary output → after.files path = d.files path := by
  cases h with
  | published hwrite hmove =>
    rw [rename_ok hmove, write_ok hwrite, files_put_self]
    refine ⟨files_put_self _, ?_, ?_⟩
    · rw [files_put_of_ne _ (temporary_ne output), files_put_self]
    · intro path houtput htemporary
      rw [files_put_of_ne _ houtput, files_put_of_ne _ htemporary, files_put_of_ne _ htemporary]

section Compiles

variable (h : Compiles d input output o answer after)

include h

theorem Compiles.of_unread {e : OsError} (hread : d.read input = .error e) :
    answer = .error (.io input e) ∧ after = d := by
  cases h with
  | unread hread' =>
    rw [Except.error.inj (hread'.symm.trans hread)]
    exact ⟨rfl, rfl⟩
  | refused hread' => cases hread'.symm.trans hread
  | generated hread' => cases hread'.symm.trans hread

theorem Compiles.of_refused {e : CompileError} (hread : d.read input = .ok source)
    (hcompile : compile source o = .error e) : answer = .error (.compile e) ∧ after = d := by
  cases h with
  | unread hread' => cases hread'.symm.trans hread
  | refused hread' hcompile' =>
    rw [Except.ok.inj (hread'.symm.trans hread)] at hcompile'
    rw [Except.error.inj (hcompile'.symm.trans hcompile)]
    exact ⟨rfl, rfl⟩
  | generated hread' hcompile' =>
    rw [Except.ok.inj (hread'.symm.trans hread)] at hcompile'
    cases hcompile'.symm.trans hcompile

/-- After the input has been compiled, all that is left is to write the module. -/
theorem Compiles.publishes (hread : d.read input = .ok source)
    (hcompile : compile source o = .ok text) : Publishes d output text answer after := by
  cases h with
  | unread hread' => cases hread'.symm.trans hread
  | refused hread' hcompile' =>
    rw [Except.ok.inj (hread'.symm.trans hread)] at hcompile'
    cases hcompile'.symm.trans hcompile
  | generated hread' hcompile' hpublish =>
    rw [Except.ok.inj (hread'.symm.trans hread)] at hcompile'
    rwa [Except.ok.inj (hcompile'.symm.trans hcompile)] at hpublish

end Compiles

theorem Compiles.files_of_error {e : FileError} (h : Compiles d input output o (.error e) after)
    (hpath : path ≠ temporary output) : after.files path = d.files path := by
  cases h with
  | unread => rfl
  | refused => rfl
  | generated _ _ hpublish => exact hpublish.files_of_error hpath

theorem Compiles.files_of_ok (h : Compiles d input output o (.ok ()) after) :
    ∃ source text, d.files input = some (.text source) ∧ compile source o = .ok text ∧
      after.files output = some (.text text) ∧ after.files (temporary output) = none ∧
      ∀ path, path ≠ output → path ≠ temporary output → after.files path = d.files path := by
  cases h with
  | generated hread hcompile hpublish =>
    exact ⟨_, _, files_of_read hread, hcompile, hpublish.files_of_ok⟩

/-- Compiling a file is all or nothing: a failure leaves the output as it was. If the input cannot
be read or compiled, nothing changes at all, and if the temporary file cannot be moved but can be
removed, it is gone. After a success the output is the module of the input, the temporary file is
gone, and nothing else has changed. -/
theorem compiled_allOrNothing (d : Disk) (input output : Path) (o : Options) :
    (∀ e, (d.compiled input output o).1 = .error e →
      (d.compiled input output o).2.files output = d.files output) ∧
    (∀ e, d.read input = .error e → d.compiled input output o = (.error (.io input e), d)) ∧
    (∀ source e, d.read input = .ok source → compile source o = .error e →
      d.compiled input output o = (.error (.compile e), d)) ∧
    (∀ source text written e, d.read input = .ok source → compile source o = .ok text →
      d.write (temporary output) text = (.ok (), written) →
      (written.rename (temporary output) output).1 = .error e →
        (d.compiled input output o).1 = .error (.io output e) ∧
        ((written.remove (temporary output)).1 = .ok () →
          (d.compiled input output o).2.files (temporary output) = none)) ∧
    ((d.compiled input output o).1 = .ok () →
      ∃ source text, d.files input = some (.text source) ∧ compile source o = .ok text ∧
        (d.compiled input output o).2.files output = some (.text text) ∧
        (d.compiled input output o).2.files (temporary output) = none ∧
        ∀ path, path ≠ output → path ≠ temporary output →
          (d.compiled input output o).2.files path = d.files path) := by
  have hcompiles := compiles_compiled d input output o
  refine ⟨?_, ?_, ?_, ?_, ?_⟩
  · intro e hanswer
    rw [hanswer] at hcompiles
    exact hcompiles.files_of_error (temporary_ne output).symm
  · intro e hread
    exact Prod.ext_iff.2 (hcompiles.of_unread hread)
  · intro source e hread hcompile
    exact Prod.ext_iff.2 (hcompiles.of_refused hread hcompile)
  · intro source text written e hread hcompile hwrite hmove
    exact (hcompiles.publishes hread hcompile).of_unmoved hwrite hmove
  · intro hanswer
    rw [hanswer] at hcompiles
    exact hcompiles.files_of_ok

/-- The module cannot be moved over an output that is there. -/
theorem compiled_allOrNothing_unmoved :
    let source := "%%\nx : a ;\n%%\n"
    let o : Options := { template := some "$start" }
    let d : Disk :=
      { files := fun p ↦ List.lookup p [("in", .text source), ("out", .text "old")]
        absolute := .ok
        failure? := fun operation ↦
          if operation = .rename "out.tmp" "out" then some ⟨.busy, none⟩ else none }
    let result := d.compiled "in" "out" o
    result.1 = .error (.io "out" .busy) ∧ result.2.files "out" = some (.text "old") ∧
      result.2.files (temporary "out") = none := by
  intro source o d result
  obtain ⟨text, hcompile⟩ : ∃ text, compile source o = .ok text := by
    have hok : (compile source o).isOk = true := by decide +kernel
    cases hresult : compile source o with
    | ok text => exact ⟨text, rfl⟩
    | error e =>
      rw [hresult] at hok
      cases hok
  obtain ⟨hkept, -, -, hunmoved, -⟩ := compiled_allOrNothing d "in" "out" o
  obtain ⟨hanswer, hremoved⟩ := hunmoved source text _ .busy rfl hcompile rfl rfl
  exact ⟨hanswer, hkept _ hanswer, hremoved rfl⟩

end Disk

end ParserGenerator
