import LetPrint.CommandLine
import LetPrint.Proofs.Engine
import LetPrint.Proofs.Native
import LetPrint.Proofs.Tracing

/-!
# How a run on a command line ends

`CommandLine.run` decides in a fixed order: the arguments, the profile, the backend, the source, the
program, and what the backend does with it.  `Ending` lists what can become of the steps behind the
arguments, with the exit code of each, and `CommandLine.run_ending` shows that there is nothing else; what
is said of exit codes, errors and messages is read off it.

Runs that execute the program directly are first looked at without a trace, where the whole compilation
is one equation (`Engine.compileFile_runIn`).  A trace changes nothing but the standard error
(`CommandLine.compileWith_untraced`), so what is shown of them carries over.

`CommandLine.run_classified` puts the parts together for all arguments and files.
-/

namespace LetPrint

open Text Session

/-! ## Backends by name -/

/-- The names of backends.  The empty name stands for the first of them. -/
def Backend.names : List Bytes :=
  [utf8 "native", utf8 "llvm", utf8 "interp", utf8 "vm", []]

theorem Backend.ofName_of_mem {name : Bytes} (h : name ∈ Backend.names) (profile : Profile)
    (w : World) :
    ∃ backend trace, (Backend.ofName name profile).runIn w = (.ok backend, { w with trace }) := by
  have hnative : ∀ text (backend : Backend), ∃ backend' trace,
      (do note text; return backend : Session Backend).runIn w = (.ok backend', { w with trace }) := by
    intro text backend
    refine ⟨backend, (w.noted text).trace, ?_⟩
    rw [← World.noted_eq]
    rfl
  simp only [names, List.mem_cons, List.not_mem_nil, or_false] at h
  rcases h with rfl | rfl | rfl | rfl | rfl
  · exact hnative _ _
  · exact ⟨_, _, rfl⟩
  · exact ⟨_, _, rfl⟩
  · exact ⟨_, _, rfl⟩
  · exact hnative _ _

/-- The error of a name that no backend has. -/
def Backend.unknown (name : Bytes) : Diagnostic :=
  .usage (utf8 "unknown backend " ++ quote name ++ utf8 " (use native, llvm, interp or vm)")

theorem Backend.ofName_of_not_mem {name : Bytes} (h : name ∉ Backend.names) (profile : Profile)
    (w : World) : (Backend.ofName name profile).runIn w = (.error (Backend.unknown name), w) := by
  simp only [names, List.mem_cons, List.not_mem_nil, or_false, not_or] at h
  obtain ⟨hnative, hllvm, hinterp, hvm, hempty⟩ := h
  have hother : (name == utf8 "native" || name.isEmpty) = false := by
    simp [hnative, hempty]
  rw [Backend.ofName, if_neg (by simpa using hinterp), if_neg (by simpa using hvm),
    if_neg (by simpa using hllvm), hother]
  rfl

/-! ## Compiling a file on the command line -/

theorem compileFile_ignoresTracing (backend : Backend) (showing : Showing) (input output : Bytes) :
    IgnoresTracing (compileFile backend showing input output) := by
  have hsource : IgnoresTracing (readSource input) :=
    .get_bind (fun w => .ofExcept _ _) fun _ _ _ => rfl
  exact hsource.bind fun source =>
    (IgnoresTracing.note _).bind fun _ => compileSource_ignoresTracing backend showing source output

namespace CommandLine

/-- With a trace, there is more on the standard error, and nothing else differs. -/
theorem compileWith_untraced (o : Options) (backend : Backend) (input output : Bytes) (w : World) :
    ∃ stderr, compileWith o backend input output w =
      { compileWith o backend input output (w.withTrace false w.trace) with stderr } := by
  obtain ⟨r, w', added, hrun⟩ :=
    compileFile_ignoresTracing backend { tree := o.ast, outline := o.dump } input output w
  obtain ⟨hon, hoff⟩ := hrun w.trace
  -- The world without a trace is the given one, or the other half of the pair of runs.
  cases htracing : w.tracing with
  | false =>
    have hw : w.withTrace false w.trace = w := by
      rw [← htracing]
      rfl
    rw [hw]
    exact ⟨_, rfl⟩
  | true =>
    have hw : w.withTrace true w.trace = w := by
      rw [← htracing]
      rfl
    rw [hw] at hon
    rw [compileWith, hon, compileWith, hoff]
    cases r with
    | error d => exact ⟨_, rfl⟩
    | ok built =>
      dsimp only
      cases built.failure with
      | none => exact ⟨_, rfl⟩
      | some d => exact ⟨_, rfl⟩

/-! ## The steps of a run -/

variable {arguments : List Bytes} {files : FileSystem} {o : Options} {input output : Bytes}

/-- The world in which a run starts. -/
def start (o : Options) (files : FileSystem) : World :=
  { tracing := o.debug, files, runner := .processes }

/-- What is done if the arguments are accepted. -/
def steps (o : Options) (input output : Bytes) (files : FileSystem) : Session Built := do
  let profile ← ofExcept id (Profile.load files o.toolchain)
  let backend ← Backend.ofName o.backend profile
  compileFile backend { tree := o.ast, outline := o.dump } input output

/-- The profile can be read, but no backend has the name. -/
def UnknownBackend (o : Options) (files : FileSystem) : Prop :=
  (∃ profile, Profile.load files o.toolchain = .ok profile) ∧ o.backend ∉ Backend.names

/-- What becomes of the steps of a run. -/
inductive Ending (o : Options) (files : FileSystem) :
    Except Diagnostic Built → World → Result → Prop where
  | unknown (d : Diagnostic) (h : UnknownBackend o files) :
      Ending o files (.error d) (start o files) (result (start o files) 2 [] (errorLine d.text))
  | failed {r : Except Diagnostic Built} {w : World} {d : Diagnostic} (h : ¬UnknownBackend o files)
      (hd : reported? r = some d) : Ending o files r w (result w 1 [] (errorLine d.text))
  | succeeded {built : Built} {w : World} (h : ¬UnknownBackend o files)
      (hbuilt : built.failure = none) :
      Ending o files (.ok built) w (result w 0 (messageLine built.artifact.message) [])

theorem Ending.compileWith {backend : Backend} {r : Except Diagnostic Built} {w w' : World}
    (h : ¬UnknownBackend o files)
    (hrun : (compileFile backend { tree := o.ast, outline := o.dump } input output).runIn w = (r, w')) :
    Ending o files r w' (compileWith o backend input output w) := by
  rw [CommandLine.compileWith, hrun]
  cases r with
  | error d => exact .failed h rfl
  | ok built =>
    dsimp only
    cases hfailure : built.failure with
    | none => exact .succeeded h hfailure
    | some d => exact .failed h hfailure

theorem run_of_fault {fault : ArgumentFault} (h : Options.parse arguments = .error fault) :
    run arguments files = { exitCode := fault.exitCode, stderr := faultText fault, files } := by
  rw [run, h]

theorem run_of_no_profile {d : Diagnostic} (h : Options.parse arguments = .ok (o, input, output))
    (hload : Profile.load files o.toolchain = .error d) :
    run arguments files = result (start o files) 1 [] (errorLine d.text) := by
  rw [run, h]
  dsimp only
  rw [hload]
  rfl

theorem run_of_unknown {profile : Profile} (h : Options.parse arguments = .ok (o, input, output))
    (hload : Profile.load files o.toolchain = .ok profile) (hname : o.backend ∉ Backend.names) :
    run arguments files =
      result (start o files) 2 [] (errorLine (Backend.unknown o.backend).text) := by
  rw [run, h]
  dsimp only
  rw [hload]
  dsimp only
  rw [Backend.ofName_of_not_mem hname]
  rfl

theorem run_of_backend {profile : Profile} {backend : Backend} {w : World}
    (h : Options.parse arguments = .ok (o, input, output))
    (hload : Profile.load files o.toolchain = .ok profile)
    (hbackend : (Backend.ofName o.backend profile).runIn (start o files) = (.ok backend, w)) :
    run arguments files = compileWith o backend input output w := by
  rw [start] at hbackend
  rw [run, h]
  dsimp only
  rw [hload]
  dsimp only
  rw [hbackend]

/-- Every run with accepted arguments ends in one of these ways. -/
theorem run_ending {r : Except Diagnostic Built} {w : World}
    (h : Options.parse arguments = .ok (o, input, output))
    (hsteps : (steps o input output files).runIn (start o files) = (r, w)) :
    Ending o files r w (run arguments files) := by
  have hprofile := runIn_ofExcept (w := start o files) id (Profile.load files o.toolchain)
  rw [steps] at hsteps
  cases hload : Profile.load files o.toolchain with
  | error d =>
    rw [hload] at hprofile
    rw [hload, runIn_bind_error hprofile] at hsteps
    cases hsteps
    rw [run_of_no_profile h hload]
    refine .failed ?_ rfl
    rintro ⟨⟨profile, hok⟩, -⟩
    rw [hload] at hok
    cases hok
  | ok profile =>
    rw [hload] at hprofile
    rw [hload, runIn_bind_ok hprofile] at hsteps
    by_cases hname : o.backend ∈ Backend.names
    · obtain ⟨backend, trace, hbackend⟩ := Backend.ofName_of_mem hname profile (start o files)
      rw [runIn_bind_ok hbackend] at hsteps
      rw [run_of_backend h hload hbackend]
      exact .compileWith (fun hunknown => hunknown.2 hname) hsteps
    · rw [runIn_bind_error (Backend.ofName_of_not_mem hname profile _)] at hsteps
      cases hsteps
      rw [run_of_unknown h hload hname]
      exact .unknown _ ⟨⟨profile, hload⟩, hname⟩

/-! ## Misuse -/

theorem exitCode_of_ne_help {fault : ArgumentFault} (h : fault ≠ .help) : fault.exitCode = 2 := by
  cases fault with
  | help => exact absurd rfl h
  | _ => rfl

/-- The arguments are not accepted, and not because the usage is asked for; or they are accepted, but
no backend has the name. -/
def Misused (arguments : List Bytes) (files : FileSystem) : Prop :=
  (∃ fault, Options.parse arguments = .error fault ∧ fault ≠ .help) ∨
    ∃ o input output, Options.parse arguments = .ok (o, input, output) ∧ UnknownBackend o files

theorem misused_iff_of_fault {fault : ArgumentFault} (h : Options.parse arguments = .error fault) :
    Misused arguments files ↔ fault ≠ .help := by
  constructor
  · rintro (⟨fault', hfault, hhelp⟩ | ⟨o, input, output, hparse, -⟩)
    · rw [h] at hfault
      cases hfault
      exact hhelp
    · rw [h] at hparse
      cases hparse
  · exact fun hhelp => .inl ⟨fault, h, hhelp⟩

theorem misused_iff_of_parse (h : Options.parse arguments = .ok (o, input, output)) :
    Misused arguments files ↔ UnknownBackend o files := by
  constructor
  · rintro (⟨fault, hfault, -⟩ | ⟨o', input', output', hparse, hunknown⟩)
    · rw [h] at hfault
      cases hfault
    · rw [h] at hparse
      cases hparse
      exact hunknown
  · exact fun hunknown => .inr ⟨o, input, output, h, hunknown⟩

theorem exitCode_eq_two_iff (arguments : List Bytes) (files : FileSystem) :
    (run arguments files).exitCode = 2 ↔ Misused arguments files := by
  cases hparse : Options.parse arguments with
  | error fault =>
    rw [run_of_fault hparse, misused_iff_of_fault hparse]
    refine ⟨?_, exitCode_of_ne_help⟩
    rintro hcode rfl
    cases hcode
  | ok parsed =>
    obtain ⟨o, input, output⟩ := parsed
    rw [misused_iff_of_parse hparse]
    rcases hsteps : (steps o input output files).runIn (start o files) with ⟨r, w⟩
    generalize run arguments files = ended, run_ending hparse hsteps = hending
    cases hending with
    | unknown d h => exact ⟨fun _ => h, fun _ => rfl⟩
    | failed h hd => exact ⟨nofun, fun hunknown => absurd hunknown h⟩
    | succeeded h hbuilt => exact ⟨nofun, fun hunknown => absurd hunknown h⟩

/-- Both file systems give the same profile for the arguments. -/
def SameProfile (arguments : List Bytes) (files files' : FileSystem) : Prop :=
  ∀ o input output, Options.parse arguments = .ok (o, input, output) →
    Profile.load files' o.toolchain = Profile.load files o.toolchain

/-- Misuse is told on the standard error and has no other effect.  Apart from the profile, nothing that
is in the files plays a part. -/
theorem run_of_misused (h : Misused arguments files) :
    ∃ stderr, ∀ files', SameProfile arguments files files' →
      run arguments files' = { exitCode := 2, stderr, files := files' } := by
  rcases h with ⟨fault, hparse, hhelp⟩ | ⟨o, input, output, hparse, ⟨profile, hload⟩, hname⟩
  · refine ⟨faultText fault, fun files' _ => ?_⟩
    rw [run_of_fault hparse, exitCode_of_ne_help hhelp]
  · refine ⟨errorLine (Backend.unknown o.backend).text, fun files' hsame => ?_⟩
    rw [run_of_unknown hparse ((hsame _ _ _ hparse).trans hload) hname]
    rfl

/-! ## Errors and messages -/

/-- The run fails with an error of the given text: the arguments are not accepted, or one of the steps
fails. -/
inductive Fails (arguments : List Bytes) (files : FileSystem) : Bytes → Prop where
  | fault {fault : ArgumentFault} (h : Options.parse arguments = .error fault)
      (hhelp : fault ≠ .help) : Fails arguments files fault.message
  | step {o : Options} {input output : Bytes} {d : Diagnostic}
      (h : Options.parse arguments = .ok (o, input, output))
      (hd : reported? ((steps o input output files).runIn (start o files)).1 = some d) :
      Fails arguments files d.text

/-- An error is reported at the end of the standard error, and the exit code tells that there is one. -/
theorem run_of_fails {text : Bytes} (h : Fails arguments files text) :
    (run arguments files).exitCode ≠ 0 ∧
      ∃ before, (run arguments files).stderr = before ++ (utf8 "error: " ++ text ++ utf8 "\n") := by
  cases h with
  | @fault fault hparse hhelp =>
    rw [run_of_fault hparse, exitCode_of_ne_help hhelp]
    constructor
    · exact Nat.succ_ne_zero 1
    · refine ⟨(if fault.isInFlag then fault.message ++ utf8 "\n" else []) ++ usageText, ?_⟩
      rw [faultText, if_neg hhelp, errorLine]
  | @step o input output d hparse hd =>
    rcases hsteps : (steps o input output files).runIn (start o files) with ⟨r, w⟩
    rw [hsteps] at hd
    generalize run arguments files = ended, run_ending hparse hsteps = hending
    cases hending with
    | unknown d' h =>
      cases hd
      exact ⟨nofun, _, rfl⟩
    | failed h hd' =>
      cases hd.symm.trans hd'
      exact ⟨nofun, _, rfl⟩
    | succeeded h hbuilt => cases hd.symm.trans hbuilt

theorem fails_of_exitCode (h : (run arguments files).exitCode ≠ 0) :
    ∃ text, Fails arguments files text := by
  cases hparse : Options.parse arguments with
  | error fault =>
    refine ⟨_, .fault hparse ?_⟩
    rintro rfl
    rw [run_of_fault hparse] at h
    exact h rfl
  | ok parsed =>
    obtain ⟨o, input, output⟩ := parsed
    rcases hsteps : (steps o input output files).runIn (start o files) with ⟨r, w⟩
    have hfails : ∀ d, reported? r = some d → ∃ text, Fails arguments files text :=
      fun d hd => ⟨_, .step hparse (by rw [hsteps]; exact hd)⟩
    generalize run arguments files = ended, run_ending hparse hsteps = hending at h
    cases hending with
    | unknown d _ => exact hfails d rfl
    | failed _ hd => exact hfails _ hd
    | succeeded _ _ => exact absurd rfl h

/-- The message of what a backend made. -/
def messageOf : Except Diagnostic Built → Bytes
  | .ok built => built.artifact.message
  | .error _ => []

theorem stdout_of_steps {r : Except Diagnostic Built} {w : World}
    (h : Options.parse arguments = .ok (o, input, output))
    (hsteps : (steps o input output files).runIn (start o files) = (r, w)) :
    (run arguments files).stdout = w.shown ++ w.out.written ++
      (if (run arguments files).exitCode = 0 then messageLine (messageOf r) else []) := by
  generalize run arguments files = ended, run_ending h hsteps = hending
  cases hending with
  | unknown d _ => rfl
  | failed _ hd => rfl
  | succeeded _ _ => rfl

/-! ## Programs that are run directly -/

/-- The program in a file, if the file can be read and the program is accepted. -/
def sourceProgram? (input : Bytes) (files : FileSystem) : Option Program :=
  match files.readFile input with
  | .error _ => none
  | .ok source => (analyse source).toOption

/-- The program of a run: there is none without a profile. -/
def program? (o : Options) (input : Bytes) (files : FileSystem) : Option Program :=
  match Profile.load files o.toolchain with
  | .error _ => none
  | .ok _ => sourceProgram? input files

theorem run_of_engine {profile : Profile} {e : Engine}
    (h : Options.parse arguments = .ok (o, input, output)) (hname : o.backend = e.backend.name)
    (hload : Profile.load files o.toolchain = .ok profile) :
    run arguments files = compileWith o e.backend input output (start o files) := by
  refine run_of_backend h hload ?_
  rw [hname]
  cases e <;> rfl

/-- An engine has no message, so what it leaves in the world is all that is printed. -/
theorem compileWith_of_runIn {e : Engine} {r : Except Diagnostic Built} {w w' : World}
    (hrun : (compileFile e.backend { tree := o.ast, outline := o.dump } input output).runIn w =
      (r, w')) (hr : r = .ok {} ∨ ∃ d, r = .error d) :
    ∃ code error, compileWith o e.backend input output w = result w' code [] error := by
  rw [compileWith, hrun]
  rcases hr with rfl | ⟨d, rfl⟩
  · exact ⟨0, [], rfl⟩
  · exact ⟨1, errorLine d.text, rfl⟩

/-- An engine shows what it is asked to show and prints what the program prints. -/
theorem compileWith_engine {w : World} (hw : w.tracing = false) (o : Options) (e : Engine)
    (input output : Bytes) :
    ∃ code shown error, (o.ast = false → o.dump = false → shown = []) ∧
      compileWith o e.backend input output w =
        result { w with
          shown := w.shown ++ shown
          out := (sourceProgram? input w.files).elim w.out fun p => (e.run p w.out).2 }
          code [] error := by
  have hrun := e.compileFile_runIn hw { tree := o.ast, outline := o.dump } input output
  rw [sourceProgram?]
  cases hread : w.files.readFile input with
  | error err =>
    rw [hread] at hrun
    obtain ⟨code, error, hresult⟩ := compileWith_of_runIn hrun (.inr ⟨_, rfl⟩)
    refine ⟨code, [], error, fun _ _ => rfl, ?_⟩
    rw [hresult, List.append_nil]
    rfl
  | ok source =>
    have hshown : o.ast = false → o.dump = false →
        Showing.text { tree := o.ast, outline := o.dump } source = [] := by
      intro hast hdump
      rw [hast, hdump]
      exact Showing.text_nothing source
    rw [hread] at hrun
    dsimp only at hrun ⊢
    cases hanalyse : analyse source with
    | error d =>
      rw [hanalyse] at hrun
      obtain ⟨code, error, hresult⟩ := compileWith_of_runIn hrun (.inr ⟨_, rfl⟩)
      exact ⟨code, _, error, hshown, hresult⟩
    | ok p =>
      rw [hanalyse] at hrun
      obtain ⟨code, error, hresult⟩ := compileWith_of_runIn hrun (e.run_fst p w.out)
      exact ⟨code, _, error, hshown, hresult⟩

/-- A run with an engine touches no file and calls no tool, and prints the output of the program. -/
theorem run_engine_prints {e : Engine} (h : Options.parse arguments = .ok (o, input, output))
    (hname : o.backend = e.backend.name) :
    (run arguments files).files = files ∧ (run arguments files).toolOut = [] ∧
      (run arguments files).toolErr = [] ∧
      (o.ast = false → o.dump = false →
        (run arguments files).stdout =
          (program? o input files).elim [] fun p => (e.run p {}).2.written) := by
  cases hload : Profile.load files o.toolchain with
  | error d =>
    rw [run_of_no_profile h hload, program?, hload]
    exact ⟨rfl, rfl, rfl, fun _ _ => rfl⟩
  | ok profile =>
    obtain ⟨stderr, huntraced⟩ := compileWith_untraced o e.backend input output (start o files)
    obtain ⟨code, shown, error, hshown, hresult⟩ := compileWith_engine
      (w := (start o files).withTrace false (start o files).trace) rfl o e input output
    rw [run_of_engine h hname hload, huntraced, hresult, program?, hload]
    refine ⟨rfl, rfl, rfl, fun hast hdump => ?_⟩
    rw [hshown hast hdump]
    show ((sourceProgram? input files).elim {} fun p => (e.run p {}).2).written ++ [] =
      (sourceProgram? input files).elim [] fun p => (e.run p {}).2.written
    rw [List.append_nil]
    cases sourceProgram? input files <;> rfl

theorem compileWith_agrees {w : World} (hw : w.tracing = false) (o : Options)
    (input output output' : Bytes)
    (hlets : ∀ p, sourceProgram? input w.files = some p → p.countP Stmt.isLet ≤ maxSlots) :
    compileWith o Engine.vm.backend input output' w =
      compileWith o Engine.interp.backend input output w := by
  have hagree :
      (compileFile Engine.vm.backend { tree := o.ast, outline := o.dump } input output').runIn w =
        (compileFile Engine.interp.backend { tree := o.ast, outline := o.dump } input output).runIn
          w := by
    rw [Engine.compileFile_runIn hw, Engine.compileFile_runIn hw]
    rw [sourceProgram?] at hlets
    cases hread : w.files.readFile input with
    | error err => rfl
    | ok source =>
      rw [hread] at hlets
      dsimp only at hlets ⊢
      cases hanalyse : analyse source with
      | error d => rfl
      | ok p =>
        rw [hanalyse] at hlets
        dsimp only
        rw [Engine.run_agrees (Program.checked_of_analyse hanalyse) (hlets p rfl)]
  rw [compileWith, hagree, compileWith]

/-- The two engines differ in the trace alone. -/
theorem run_engines_agree {arguments' : List Bytes} {output' : Bytes}
    (h : Options.parse arguments =
      .ok ({ o with backend := Engine.interp.backend.name }, input, output))
    (h' : Options.parse arguments' =
      .ok ({ o with backend := Engine.vm.backend.name }, input, output'))
    (hlets : ∀ p, program? o input files = some p → p.countP Stmt.isLet ≤ maxSlots) :
    (∃ stderr, run arguments' files = { run arguments files with stderr }) ∧
      (o.debug = false → run arguments' files = run arguments files) := by
  cases hload : Profile.load files o.toolchain with
  | error d =>
    rw [run_of_no_profile h hload, run_of_no_profile h' hload]
    exact ⟨⟨_, rfl⟩, fun _ => rfl⟩
  | ok profile =>
    have hagree : ∀ w : World, w.tracing = false → w.files = files →
        compileWith o Engine.vm.backend input output' w =
          compileWith o Engine.interp.backend input output w := by
      rintro w hw rfl
      rw [program?, hload] at hlets
      exact compileWith_agrees hw o input output output' hlets
    have hinterp : run arguments files =
        compileWith o Engine.interp.backend input output (start o files) :=
      run_of_engine (o := { o with backend := Engine.interp.backend.name }) h rfl hload
    have hvm : run arguments' files =
        compileWith o Engine.vm.backend input output' (start o files) :=
      run_of_engine (o := { o with backend := Engine.vm.backend.name }) h' rfl hload
    rw [hinterp, hvm]
    refine ⟨?_, fun hdebug => hagree _ hdebug rfl⟩
    -- With a trace, each run is compared with the one without, and those agree.
    obtain ⟨stderr, huntraced⟩ :=
      compileWith_untraced o Engine.interp.backend input output (start o files)
    obtain ⟨stderr', huntraced'⟩ :=
      compileWith_untraced o Engine.vm.backend input output' (start o files)
    refine ⟨stderr', ?_⟩
    rw [huntraced, huntraced', hagree _ rfl rfl]

/-! ## All runs -/

/-- How a run on arguments and files ends. -/
structure Classified (arguments : List Bytes) (files : FileSystem) : Prop where
  /-- The exit code 2 stands for misuse, and for nothing else. -/
  misuse : (run arguments files).exitCode = 2 ↔ Misused arguments files
  /-- Misuse prints to the standard error alone and changes no file.  No file but the profile plays a
  part, so the source is not read. -/
  inert : Misused arguments files → ∃ stderr, ∀ files', SameProfile arguments files files' →
    run arguments files' = { exitCode := 2, stderr, files := files' }
  /-- Any exit code but 0 stands for an error. -/
  failure : (run arguments files).exitCode ≠ 0 ↔ ∃ text, Fails arguments files text
  /-- The error is reported at the end of the standard error, as `error: `, its text and a newline. -/
  report : ∀ text, Fails arguments files text →
    ∃ before, (run arguments files).stderr = before ++ (utf8 "error: " ++ text ++ utf8 "\n")
  /-- The backend's message stands behind what is shown and what the program prints, and only if the
  exit code is 0. -/
  message : ∀ o input output r w, Options.parse arguments = .ok (o, input, output) →
    (steps o input output files).runIn (start o files) = (r, w) →
    (run arguments files).stdout = w.shown ++ w.out.written ++
      (if (run arguments files).exitCode = 0 then messageLine (messageOf r) else [])
  /-- A program that is run directly changes no file and calls no tool.  If nothing is to be shown, the
  standard output is that of the program. -/
  engine : ∀ o input output (e : Engine), Options.parse arguments = .ok (o, input, output) →
    o.backend = e.backend.name →
    (run arguments files).files = files ∧ (run arguments files).toolOut = [] ∧
      (run arguments files).toolErr = [] ∧
      (o.ast = false → o.dump = false →
        (run arguments files).stdout =
          (program? o input files).elim [] fun p => (e.run p {}).2.written)
  /-- Where a program binds names up to 2147483648 times, its runs by the two engines differ at most
  in the standard error, and there only if a trace is asked for. -/
  agreement : ∀ (o : Options) input output arguments' output',
    Options.parse arguments =
      .ok ({ o with backend := Engine.interp.backend.name }, input, output) →
    Options.parse arguments' =
      .ok ({ o with backend := Engine.vm.backend.name }, input, output') →
    (∀ p, program? o input files = some p → p.countP Stmt.isLet ≤ maxSlots) →
    (∃ stderr, run arguments' files = { run arguments files with stderr }) ∧
      (o.debug = false → run arguments' files = run arguments files)

/-- Every run ends as described. -/
theorem run_classified (arguments : List Bytes) (files : FileSystem) :
    Classified arguments files where
  misuse := exitCode_eq_two_iff arguments files
  inert := run_of_misused
  failure := ⟨fails_of_exitCode, fun ⟨_, h⟩ => (run_of_fails h).1⟩
  report _ h := (run_of_fails h).2
  message _ _ _ _ _ h hsteps := stdout_of_steps h hsteps
  engine _ _ _ _ h hname := run_engine_prints h hname
  agreement _ _ _ _ _ h h' hlets := run_engines_agree h h' hlets

/-- A file `p` with a program that prints an empty line. -/
def boundFiles : FileSystem :=
  { entries := [([utf8 "p"], .file 0o644 boundSource)] }

/-- The arguments that ask for a backend. -/
def argumentsFor (backend : Bytes) : List Bytes :=
  [utf8 "-backend", backend, utf8 "p", utf8 "o"]

theorem parse_argumentsFor (backend : Bytes) :
    Options.parse (argumentsFor backend) = .ok ({ backend }, utf8 "p", utf8 "o") := by
  have hbody : Flag.body? (utf8 "-backend") = some (utf8 "backend") := rfl
  have hend : (utf8 "-backend" == utf8 "--") = false := rfl
  have hname : Flag.startsName (utf8 "backend") = true := rfl
  have hsplit : Flag.split (utf8 "backend") = (utf8 "backend", none) := rfl
  have hfind : Flag.find? (utf8 "backend") = some (.text fun o v => { o with backend := v }) := rfl
  have hinput : Flag.body? (utf8 "p") = none := rfl
  simp only [Options.parse, argumentsFor, Options.readFlags, hbody, hend, hname, hsplit, hfind, hinput,
    Bool.not_true, Bool.false_eq_true, if_false]

/-- An unknown backend is misuse, and is told as such.  Both engines print the empty line, and no more. -/
theorem run_classified_engines :
    (run (argumentsFor (utf8 "jit")) boundFiles).exitCode = 2 ∧
      (run (argumentsFor (utf8 "jit")) boundFiles).stderr =
        utf8 "error: usage error: unknown backend \"jit\" (use native, llvm, interp or vm)\n" ∧
      (run (argumentsFor (utf8 "interp")) boundFiles).stdout = utf8 "\n" ∧
      run (argumentsFor (utf8 "vm")) boundFiles = run (argumentsFor (utf8 "interp")) boundFiles := by
  have hjit := run_classified (argumentsFor (utf8 "jit")) boundFiles
  have hinterp := run_classified (argumentsFor (utf8 "interp")) boundFiles
  have hname : utf8 "jit" ∉ Backend.names := by decide
  refine ⟨?_, ?_, ?_, ?_⟩
  · have hunknown : UnknownBackend { backend := utf8 "jit" } boundFiles := ⟨⟨{}, rfl⟩, hname⟩
    exact hjit.misuse.2 (.inr ⟨_, _, _, parse_argumentsFor _, hunknown⟩)
  · have hload : Profile.load boundFiles (utf8 "") = .ok {} := rfl
    have hrun := run_of_unknown (parse_argumentsFor (utf8 "jit")) hload hname
    rw [hrun]
    decide +kernel
  · exact (hinterp.engine _ _ _ .interp (parse_argumentsFor _) rfl).2.2.2 rfl rfl
  · refine (hinterp.agreement {} _ _ _ _ (parse_argumentsFor _) (parse_argumentsFor _) ?_).2 rfl
    intro p hp
    cases hp
    decide

end CommandLine

end LetPrint
