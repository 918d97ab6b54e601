import ParserGenerator.CommandLine.Run
import ParserGenerator.Proofs.Derivation.Meaning
import ParserGenerator.Proofs.Files.Disk

/-!
# The command line and the compiler agree

A run of the command line goes through the steps of a compilation by itself, with writes to files in
between. On a disk without failures it succeeds for the sources that can be compiled, writes what
they compile to, and otherwise leaves the output file and its copy as they were.
-/

namespace ParserGenerator

/-! ## Requests -/

namespace FamilySets

theorem basesIn_append (kind : FamilyKind) (requests later : List (FamilyKind × String)) :
    basesIn kind (requests ++ later) = basesIn kind requests ++ basesIn kind later := by
  simp [basesIn]

theorem basesIn_map (kind other : FamilyKind) (names : List String) :
    basesIn kind (names.map (other, ·)) = if other = kind then names else [] := by
  induction names with
  | nil => simp [basesIn]
  | cons name names ih =>
    unfold basesIn at ih ⊢
    by_cases h : other = kind
    · subst h
      simpa using ih
    · simp [h, ih]

end FamilySets

/-- Requests for families of different kinds do not affect each other. -/
theorem Grammar.request_congr (g : Grammar) {requests later : List (FamilyKind × String)}
    (h : ∀ kind, FamilySets.basesIn kind requests = FamilySets.basesIn kind later) :
    g.request requests = g.request later := by
  have hfamilies : (g.request requests).families = (g.request later).families := by
    apply FamilySets.eq_of_get
    intro kind
    rw [request, request, FamilySets.get_foldl_insert, FamilySets.get_foldl_insert, h kind]
  exact congrArg (fun families ↦ { g with families }) hfamilies

/-- A module does not depend on the requests in the options, which are part of the grammar by
then. -/
theorem Module.generate_congr (g : Grammar) {o o' : Options} (hname : o.fileName = o'.fileName)
    (htemplate : o.template = o'.template) (htab : o.tabSize = o'.tabSize) :
    generate g o = generate g o' := by
  obtain ⟨fileName, template, tabSize, strict, families⟩ := o
  obtain ⟨fileName', template', tabSize', strict', families'⟩ := o'
  obtain rfl : fileName = fileName' := hname
  obtain rfl : template = template' := htemplate
  obtain rfl : tabSize = tabSize' := htab
  rfl

namespace CommandLine

/-! ## Options -/

namespace Arguments

variable {a : Arguments} {o : Options} {template : Option String}

/-- The bases that are requested for a kind of family. -/
def requests (a : Arguments) : FamilyKind → List String
  | .optional => a.optional
  | .list => a.list
  | .string => a.string

/-- The output file of a run whose input is at an absolute path. -/
def outputPath (a : Arguments) (input : Path) : Path := a.output.getD (input.withExtension "rs")

/-- The options are what the arguments ask for. Requests for families of different kinds may be
mixed. -/
structure Describes (a : Arguments) (template : Option String) (o : Options) : Prop where
  fileName : o.fileName = a.input
  template : o.template = template
  tabSize : o.tabSize = a.tabSize
  strict : o.strict = a.strict
  families : ∀ kind, FamilySets.basesIn kind o.families = a.requests kind

theorem describes_options (a : Arguments) (template : Option String) :
    a.Describes template (a.options template) where
  fileName := rfl
  template := rfl
  tabSize := rfl
  strict := rfl
  families kind := by
    simp only [options, FamilySets.basesIn_append, FamilySets.basesIn_map]
    cases kind <;> simp [requests]

/-- What is described by the same arguments compiles to the same. -/
theorem Describes.compile_eq (h : a.Describes template o) (source : String) :
    compile source o = compile source (a.options template) := by
  have hdefault := a.describes_options template
  have hstrict : o.strict = (a.options template).strict := h.strict
  -- The requests reach the module through the families of the grammar only.
  have hrequest (g : Grammar) :
      g.request o.families = g.request (a.options template).families := by
    apply Grammar.request_congr
    intro kind
    rw [h.families, hdefault.families]
  have hgenerate (g : Grammar) : Module.generate g o = Module.generate g (a.options template) :=
    Module.generate_congr g h.fileName h.template h.tabSize
  simp only [compile, hstrict, hrequest, hgenerate]

end Arguments

/-! ## Runs on a disk without failures -/

section Runs

variable {d : Disk} {a : Arguments} {g : Grammar} {o : Options} {input output : Path}
  {source text : String} {template : Option String}

open Disk

/-- The copy of an output file. -/
def backupPath (output : Path) : Path := output.withExtension "rs.bak"

/-- The outcome of a run is that of the compilation of its source. -/
structure Agrees (d : Disk) (output : Path) (outcome : Except CompileError String)
    (answer : Except Complaint Unit) (after : Disk) : Prop where
  ok_iff : answer = .ok () ↔ ∃ text, outcome = .ok text
  /-- The output is written, and a copy of what it was is kept. -/
  files_of_ok : ∀ text, outcome = .ok text →
    after.files output = some (.text text) ∧
      after.files (backupPath output) = (d.files output).or (d.files (backupPath output))
  files_of_error : ∀ e, answer = .error e →
    after.files output = d.files output ∧
      after.files (backupPath output) = d.files (backupPath output)

/-- A run that fails may change other files. -/
theorem Agrees.of_error {after : Disk} {e : CompileError} (complaint : Complaint)
    (houtput : after.files output = d.files output)
    (hbackup : after.files (backupPath output) = d.files (backupPath output)) :
    Agrees d output (.error e) (.error complaint) after where
  ok_iff := by simp
  files_of_ok := by simp
  files_of_error := fun _ _ ↦ ⟨houtput, hbackup⟩

theorem Agrees.of_ok {after : Disk} (houtput : after.files output = some (.text text))
    (hbackup :
      after.files (backupPath output) = (d.files output).or (d.files (backupPath output))) :
    Agrees d output (.ok text) (.ok ()) after where
  ok_iff := by simp
  files_of_ok := by
    intro _ htext
    rw [← Except.ok.inj htext]
    exact ⟨houtput, hbackup⟩
  files_of_error := by simp

/-- The disk after an output file has been copied, if there is one. -/
def backedUp (d : Disk) (output : Path) : Disk :=
  match d.files output with
  | none => d
  | some content => d.put (backupPath output) (some content)

theorem run_backUp (hd : d.Reliable) (output : Path) :
    (backUp output : StateM Disk _).run d = (.ok (), backedUp d output) := by
  cases h : d.files output with
  | none =>
    simp only [backUp, backedUp, run_bind, run_fileExists, h, Option.isSome_none,
      Bool.false_eq_true, if_false, run_pure]
  | some content =>
    simp only [backUp, backedUp, backupPath, run_bind, run_fileExists, h, Option.isSome_some,
      if_true, run_copy, hd.copy h, run_pure]

theorem run_writeFile (hd : d.Reliable) (p : Path) (text message : String) :
    (writeFile p text message : StateM Disk _).run d = (.ok (), d.put p (some (.text text))) := by
  simp only [writeFile, run_bind, run_write, hd.write, run_pure]

theorem reliable_backedUp (hd : d.Reliable) (output : Path) : (backedUp d output).Reliable := by
  unfold backedUp
  split
  · exact hd
  · exact hd.put _ _

theorem files_backedUp (d : Disk) (output : Path) :
    (backedUp d output).files (backupPath output) =
      (d.files output).or (d.files (backupPath output)) := by
  unfold backedUp
  split
  · next h => simp [h]
  · next content h => simp [h]

/-- The module of a grammar is written unless there is none. -/
theorem agrees_emit (hd : d.Reliable) (g : Grammar) (o : Options)
    (hbackup : backupPath output ≠ output) :
    Agrees d output (match Module.generate g o with
        | .error e => .error (.generate e)
        | .ok text => .ok text)
      ((emit g o output : StateM Disk _).run d).1 ((emit g o output : StateM Disk _).run d).2 := by
  cases hgenerate : Module.generate g o with
  | error e =>
    simp only [emit, hgenerate, run_pure]
    exact .of_error _ rfl rfl
  | ok text =>
    simp only [emit, hgenerate, run_bind, run_backUp hd,
      run_writeFile (reliable_backedUp hd output)]
    apply Agrees.of_ok (files_put_self _)
    rw [files_put_of_ne _ hbackup, files_backedUp]

/-- The disk after the dump of a grammar has been written, if that is asked for. -/
def dumped (d : Disk) (a : Arguments) (input : Path) (g : Grammar) : Disk :=
  if a.dump then d.put (input.withExtension "expanded") (some (.text g.dump)) else d

theorem reliable_dumped (hd : d.Reliable) (a : Arguments) (input : Path) (g : Grammar) :
    (dumped d a input g).Reliable := by
  unfold dumped
  split
  · exact hd.put _ _
  · exact hd

theorem files_dumped (d : Disk) (a : Arguments) (g : Grammar) {p : Path}
    (hp : p ≠ input.withExtension "expanded") : (dumped d a input g).files p = d.files p := by
  unfold dumped
  split
  · exact files_put_of_ne _ hp
  · rfl

theorem run_finish (hd : d.Reliable) (a : Arguments) (input : Path) (g : Grammar) (o : Options) :
    (finish a input g o : StateM Disk _).run d =
      (emit g o (a.outputPath input) : StateM Disk _).run (dumped d a input g) := by
  cases hdump : a.dump with
  | false =>
    simp only [finish, dumped, Arguments.outputPath, hdump, Bool.false_eq_true, if_false, run_bind,
      run_pure]
  | true =>
    simp only [finish, dumped, Arguments.outputPath, hdump, if_true, run_bind, run_writeFile hd]

/-- What was written elsewhere before does not matter. -/
theorem Agrees.of_files {d' after : Disk} {outcome : Except CompileError String}
    {answer : Except Complaint Unit} (h : Agrees d' output outcome answer after)
    (houtput : d'.files output = d.files output)
    (hbackup : d'.files (backupPath output) = d.files (backupPath output)) :
    Agrees d output outcome answer after where
  ok_iff := h.ok_iff
  files_of_ok := by
    rw [← houtput, ← hbackup]
    exact h.files_of_ok
  files_of_error := by
    rw [← houtput, ← hbackup]
    exact h.files_of_error

/-- The paths that a run writes to. -/
def writtenPaths (a : Arguments) (input : Path) : List Path :=
  let output := a.outputPath input
  [output, backupPath output, input.withExtension "expanded"]

theorem run_readTemplate (h : a.template.map d.read = template.map .ok) :
    (readTemplate a : StateM Disk _).run d = (.ok template, d) := by
  cases hpath : a.template with
  | none =>
    rw [hpath] at h
    rw [Option.map_eq_none_iff.1 h.symm]
    simp only [readTemplate, hpath, run_pure]
  | some path =>
    rw [hpath] at h
    obtain ⟨text, rfl, htext⟩ := Option.map_eq_some_iff.1 h.symm
    simp only [readTemplate, hpath, run_bind, run_read, ← htext, run_pure]

theorem agrees_finish (hd : d.Reliable) (a : Arguments) (g : Grammar) (o : Options)
    (hpaths : (writtenPaths a input).Nodup) :
    Agrees d (a.outputPath input) (match Module.generate g o with
        | .error e => .error (.generate e)
        | .ok text => .ok text)
      ((finish a input g o : StateM Disk _).run d).1
      ((finish a input g o : StateM Disk _).run d).2 := by
  obtain ⟨hbackup, hdump, hdump'⟩ :
      a.outputPath input ≠ backupPath (a.outputPath input) ∧
        a.outputPath input ≠ input.withExtension "expanded" ∧
        backupPath (a.outputPath input) ≠ input.withExtension "expanded" := by
    simpa [writtenPaths, and_assoc] using hpaths
  rw [run_finish hd]
  -- The dump is written to neither of the two paths, so it does not show in the outcome.
  exact (agrees_emit (reliable_dumped hd a input g) g o hbackup.symm).of_files
    (files_dumped d a g hdump) (files_dumped d a g hdump')

theorem agrees_process (hd : d.Reliable) (hread : d.read input = .ok source)
    (htemplate : a.template.map d.read = template.map .ok) (hpaths : (writtenPaths a input).Nodup) :
    Agrees d (a.outputPath input) (compile source (a.options template))
      ((process a input : StateM Disk _).run d).1.answer
      ((process a input : StateM Disk _).run d).2 := by
  cases hparse : (Grammar.parse source).result with
  | error e =>
    simp only [process, parseFile, run_bind, run_readTemplate htemplate, run_read, hread, hparse,
      run_pure, compile]
    exact .of_error _ rfl rfl
  | ok parsed =>
    have hstrict : (a.options template).strict = a.strict := rfl
    simp only [process, parseFile, run_bind, run_readTemplate htemplate, run_read, hread, hparse,
      run_pure, compile, hstrict]
    split
    · exact .of_error _ rfl rfl
    · exact agrees_finish hd a _ _ hpaths

/-- The command line and the compiler agree. A run that can read its input and its template, and
writes to three different files, succeeds exactly if the compiler does with the same options and the
input path as it was given. Then the output is what the compiler returns, and a copy of what it was
is kept; otherwise the output and the copy stay as they were. -/
theorem agrees_runArguments (hd : d.Reliable) (hinput : d.absolute a.input = .ok input)
    (hread : d.read input = .ok source) (htemplate : a.template.map d.read = template.map .ok)
    (hpaths : (writtenPaths a input).Nodup) (ho : a.Describes template o) :
    Agrees d (a.outputPath input) (compile source o)
      ((runArguments a : StateM Disk _).run d).1.answer
      ((runArguments a : StateM Disk _).run d).2 := by
  rw [ho.compile_eq]
  simp only [runArguments, run_bind, run_canonical, hinput]
  exact agrees_process hd hread htemplate hpaths

/-- A template, a dump, an output that is there already, and requests in another order. -/
theorem agrees_runArguments_requests :
    let source := "%%\nx : a ;\n%%\n"
    let template := "$start: $list_rules$string_rules"
    let a : Arguments :=
      { input := "g.ypp", output := some "g.rs", template := some "t", dump := true,
        list := ["b"], string := ["c"] }
    let o : Options :=
      { fileName := "g.ypp", template := some template,
        families := [(.string, "c"), (.list, "b")] }
    let d : Disk :=
      { files := fun p ↦
          List.lookup p
            [("/g.ypp", .text source), ("t", .text template), ("g.rs", .text "old")]
        absolute := fun p ↦ .ok ("/" ++ p)
        failure? := fun _ ↦ none }
    let run := (runArguments a : StateM Disk _).run d
    let text := "x:     \"b\",\n    \"c\",\n"
    compile source o = .ok text ∧ run.1.answer = .ok () ∧
      run.2.files "g.rs" = some (.text text) ∧ run.2.files "g.rs.bak" = some (.text "old") := by
  intro source template a o d run text
  have hdescribes : a.Describes (some template) o := by
    refine ⟨rfl, rfl, rfl, rfl, ?_⟩
    intro kind
    cases kind <;> decide +kernel
  have hpaths : (writtenPaths a "/g.ypp").Nodup := by decide +kernel
  have houtputPath : a.outputPath "/g.ypp" = "g.rs" := rfl
  have hbackupPath : backupPath "g.rs" = "g.rs.bak" := by decide +kernel
  have hcompile : compile source o = .ok text := by
    have hsome : (compile source o).toOption = some text := by decide +kernel
    cases hresult : compile source o with
    | error e =>
      rw [hresult] at hsome
      cases hsome
    | ok result =>
      rw [hresult] at hsome
      rw [Option.some.inj hsome]
  have hinput : d.absolute a.input = .ok "/g.ypp" := rfl
  have hread : d.read "/g.ypp" = .ok source := rfl
  have htemplate : a.template.map d.read = (some template).map .ok := rfl
  have hagrees := agrees_runArguments (fun _ ↦ rfl) hinput hread htemplate hpaths hdescribes
  obtain ⟨houtput, hcopy⟩ := hagrees.files_of_ok text hcompile
  rw [houtputPath, hbackupPath] at hcopy
  exact ⟨hcompile, hagrees.ok_iff.2 ⟨text, hcompile⟩, houtput, hcopy⟩

end Runs

end CommandLine

end ParserGenerator
