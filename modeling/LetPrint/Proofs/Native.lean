import LetPrint.Proofs.Backend
import LetPrint.Proofs.Ir.Typing

/-!
# Building an executable

Building runs tools one after the other and stops at the first that fails
(`Backend.native_stops_at_first_failure`).  Tools are those of a script, which may do anything to the
files when one is run.

* `Runs` says how a plan of calls is carried out: a call is made if all calls before it succeeded, and
  the first failure ends the run.  What was made is the start of the plan (`Runs.isPrefix`).
* `Performs` says that a session does nothing to calls and files but carry out a plan; so do the three
  linkers (`Linker.link_performs`), each with a plan of its own (`Linker.plan`).
* `Building` lists the six ways in which building can end, with the calls made, the files left and the
  result.  `Backend.buildExecutable_ends` shows that there is no other.
-/

namespace LetPrint

open Text Session

/-! ## Carrying out a plan -/

/-- A planned call: the command, what is reported if it fails, and whether it is run for its output,
which leaves the files alone. -/
structure ToolCall where
  command : Command
  message : Bytes
  forOutput : Bool := false
  deriving DecidableEq, Repr

/-- Whether a call fails, and the files after it. -/
def ToolCall.outcome (c : ToolCall) (s : Script) (fs : FileSystem) :
    Except Diagnostic Unit × FileSystem :=
  if c.forOutput then ((s.output c.command).map fun _ => (), fs) else s.run fs c.command

theorem ToolCall.outcome_of_forOutput {c : ToolCall} (hc : c.forOutput = true) (s : Script)
    (fs : FileSystem) : c.outcome s fs = ((s.output c.command).map fun _ => (), fs) :=
  if_pos hc

theorem ToolCall.outcome_of_not_forOutput {c : ToolCall} (hc : c.forOutput = false) (s : Script)
    (fs : FileSystem) : c.outcome s fs = s.run fs c.command :=
  if_neg (by rw [hc]; decide)

/-- The calls of a plan are made in order, up to the first that fails; a failure is reported as a
toolchain error. -/
inductive Runs (s : Script) :
    FileSystem → List ToolCall → List Command → FileSystem → Option Diagnostic → Prop where
  | done (fs : FileSystem) : Runs s fs [] [] fs none
  | stop {fs fs' : FileSystem} {c : ToolCall} {cause : Diagnostic}
      (h : c.outcome s fs = (.error cause, fs')) (rest : List ToolCall) :
      Runs s fs (c :: rest) [c.command] fs' (some (.toolchain c.message cause))
  | step {fs fs₁ fs' : FileSystem} {c : ToolCall} {rest : List ToolCall} {made : List Command}
      {failure : Option Diagnostic} (h : c.outcome s fs = (.ok (), fs₁))
      (hrest : Runs s fs₁ rest made fs' failure) :
      Runs s fs (c :: rest) (c.command :: made) fs' failure

namespace Runs

variable {s : Script} {fs fs' : FileSystem} {plan : List ToolCall} {made : List Command}
  {failure : Option Diagnostic}

/-- What was made is the start of the plan. -/
theorem isPrefix (h : Runs s fs plan made fs' failure) : made <+: plan.map ToolCall.command := by
  induction h with
  | done => exact List.prefix_rfl
  | stop h rest => exact ⟨rest.map ToolCall.command, rfl⟩
  | step _ _ ih => exact List.cons_prefix_cons.2 ⟨rfl, ih⟩

/-- What is planned behind a plan is made after it, if nothing failed. -/
theorem append {fs₁ : FileSystem} {plan' : List ToolCall} {made' : List Command}
    (h : Runs s fs plan made fs₁ none) (h' : Runs s fs₁ plan' made' fs' failure) :
    Runs s fs (plan ++ plan') (made ++ made') fs' failure := by
  generalize hnone : (none : Option Diagnostic) = ended at h
  induction h with
  | done => exact h'
  | stop => cases hnone
  | step hc _ ih => exact .step hc (ih h' hnone)

/-- What is planned behind a plan that failed is not made. -/
theorem append_of_failed {d : Diagnostic} (h : Runs s fs plan made fs' (some d))
    (plan' : List ToolCall) : Runs s fs (plan ++ plan') made fs' (some d) := by
  generalize hsome : some d = ended at h ⊢
  induction h with
  | done => cases hsome
  | stop hc rest => exact .stop hc (rest ++ plan')
  | step hc _ ih => exact .step hc (ih hsome)

theorem category (h : Runs s fs plan made fs' failure) {d : Diagnostic} (hd : failure = some d) :
    d.category = .toolchain := by
  induction h with
  | done => cases hd
  | stop =>
    cases hd
    rfl
  | step _ _ ih => exact ih hd

/-- If all calls before the last are run for their output, the call that fails finds the files as they
were before the plan. -/
theorem exists_failed {d : Diagnostic} (h : Runs s fs plan made fs' (some d))
    (hplan : ∀ c ∈ plan.dropLast, c.forOutput = true) :
    ∃ c ∈ plan, ∃ cause, c.outcome s fs = (.error cause, fs') ∧ d = .toolchain c.message cause := by
  generalize hsome : some d = ended at h
  induction h with
  | done => cases hsome
  | stop h rest =>
    cases hsome
    exact ⟨_, List.mem_cons_self, _, h, rfl⟩
  | @step fs fs₁ fs' c rest made failure h hrest ih =>
    cases rest with
    | nil =>
      cases hrest
      cases hsome
    | cons next rest =>
      rw [List.dropLast_cons_cons, List.forall_mem_cons] at hplan
      rw [ToolCall.outcome_of_forOutput hplan.1] at h
      obtain rfl : fs = fs₁ := congrArg Prod.snd h
      obtain ⟨c', hc', hfailed⟩ := ih hplan.2 hsome
      exact ⟨c', List.mem_cons_of_mem c hc', hfailed⟩

end Runs

/-! ## Calls of a script -/

namespace Script

/-- What a command prints. -/
def printed (s : Script) (c : Command) : Bytes :=
  (s.outputs.lookup (Path.base c.name)).getD []

theorem output_eq {s : Script} {c : Command} {text : Bytes} (h : s.output c = .ok text) :
    text = s.printed c := by
  unfold Script.output at h
  split at h
  · cases h
  · exact (Except.ok.inj h).symm

/-- A run that fails leaves the files alone. -/
def FailsCleanly (s : Script) : Prop :=
  ∀ fs c d fs', s.run fs c = (.error d, fs') → fs' = fs

/-- So it is where runs do nothing, or make their output files. -/
theorem failsCleanly_of_onRun {s : Script} (h : s.onRun = .idle ∨ s.onRun = .create) :
    s.FailsCleanly := by
  intro fs c d fs' hrun
  unfold Script.run at hrun
  split at hrun
  · exact (congrArg Prod.snd hrun).symm
  · rcases h with hidle | hcreate
    · rw [hidle] at hrun
      cases hrun
    · rw [hcreate, Effect.create] at hrun
      split at hrun
      · cases hrun
      · split at hrun
        · cases hrun
        · exact (congrArg Prod.snd hrun).symm

end Script

theorem ToolCall.files_of_failsCleanly {c : ToolCall} {s : Script} {fs fs' : FileSystem}
    {cause : Diagnostic} (hclean : s.FailsCleanly) (h : c.outcome s fs = (.error cause, fs')) :
    fs' = fs := by
  cases hc : c.forOutput with
  | true =>
    rw [ToolCall.outcome_of_forOutput hc] at h
    exact (congrArg Prod.snd h).symm
  | false =>
    rw [ToolCall.outcome_of_not_forOutput hc] at h
    exact hclean _ _ _ _ h

namespace Session

variable {s : Script} {w : World} {c : Command}

theorem runIn_look (hw : w.runner = .scripted s) (name : Bytes) :
    (look name).runIn w =
      (.ok ((s.paths.lookup name).elim (.error (notFound name)) .ok), w) := by
  change (Except.ok (w.runner.look w.files name), w) = _
  rw [hw, Runner.look]
  cases s.paths.lookup name <;> rfl

/-- Calls of a script are recorded and not traced. -/
theorem runIn_record (hw : w.runner = .scripted s) (c : Command) :
    (record c).runIn w = (.ok (), { w with calls := w.calls ++ [c] }) := by
  have htraced : w.runner.isTraced = false := by
    rw [hw]
    rfl
  rw [record, runIn_bind_ok (runIn_modify _), runIn_bind_ok runIn_get]
  simp only [htraced, Bool.false_eq_true, if_false]
  rfl

/-- A call ends as the script says. -/
theorem runIn_call {result : Except Diagnostic Unit} {files : FileSystem}
    (hw : w.runner = .scripted s) (h : s.run w.files c = (result, files)) :
    (call c).runIn w = (.ok result, { w with calls := w.calls ++ [c], files }) := by
  have hran : w.runner.run w.files c = { result, files } := by
    simp only [hw, Runner.run, h]
  rw [call, runIn_bind_ok (runIn_record hw c), runIn_bind_ok runIn_get, runIn_bind_ok runIn_set,
    runIn_pure]
  simp only [hran, List.append_nil]

theorem runIn_callForOutput (hw : w.runner = .scripted s) (c : Command) :
    (callForOutput c).runIn w = (.ok (s.output c), { w with calls := w.calls ++ [c] }) := by
  have hran : w.runner.output w.files c = { result := s.output c, files := w.files } := by
    simp only [hw, Runner.output]
  rw [callForOutput, runIn_bind_ok (runIn_record hw c), runIn_bind_ok runIn_get,
    runIn_bind_ok runIn_set, runIn_pure]
  simp only [hran]

end Session

/-! ## Sessions that carry out a plan -/

/-- In the world `w` the session carries out a plan, and fails if the plan does. -/
def Performs (s : Script) (plan : List ToolCall) (w : World) (session : Session Unit) : Prop :=
  ∃ made failure w', session.runIn w = (failure.elim (.ok ()) .error, w') ∧
    Runs s w.files plan made w'.files failure ∧ w'.calls = w.calls ++ made ∧ w'.runner = w.runner

variable {s : Script} {w : World}

/-- One call, whose failure is reported. -/
theorem call_performs {c : ToolCall} (hw : w.runner = .scripted s) (hc : c.forOutput = false) :
    Performs s [c] w (call c.command >>= orToolchainError c.message) := by
  have houtcome := ToolCall.outcome_of_not_forOutput hc s w.files
  rcases hrun : s.run w.files c.command with ⟨result, files⟩
  rw [hrun] at houtcome
  cases result with
  | ok _ =>
    refine ⟨_, none, { w with calls := w.calls ++ [c.command], files }, ?_,
      .step houtcome (.done files), rfl, rfl⟩
    rw [runIn_bind_ok (runIn_call hw hrun)]
    rfl
  | error d =>
    refine ⟨_, some _, { w with calls := w.calls ++ [c.command], files }, ?_, .stop houtcome [], rfl,
      rfl⟩
    rw [runIn_bind_ok (runIn_call hw hrun)]
    rfl

/-- A call for output, before the rest of a plan. -/
theorem performs_output {c : ToolCall} {rest : List ToolCall} {next : Bytes → Session Unit}
    (hw : w.runner = .scripted s) (hc : c.forOutput = true)
    (hnext : Performs s rest { w with calls := w.calls ++ [c.command] } (next (s.printed c.command))) :
    Performs s (c :: rest) w
      (callForOutput c.command >>= fun r => orToolchainError c.message r >>= next) := by
  have hcall := runIn_callForOutput hw c.command
  have houtcome := ToolCall.outcome_of_forOutput hc s w.files
  cases hout : s.output c.command with
  | error d =>
    rw [hout] at houtcome
    refine ⟨_, some _, { w with calls := w.calls ++ [c.command] }, ?_, .stop houtcome rest, rfl, rfl⟩
    rw [runIn_bind_ok hcall, hout]
    rfl
  | ok text =>
    rw [hout] at houtcome
    obtain ⟨made, failure, w', hrun, hruns, hcalls, hrunner⟩ := hnext
    refine ⟨_, failure, w', ?_, .step houtcome hruns, ?_, hrunner⟩
    · rw [← Script.output_eq hout] at hrun
      rw [runIn_bind_ok hcall, hout, ← hrun]
      rfl
    · rw [hcalls, List.append_assoc]
      rfl

/-- A note before a plan. -/
theorem performs_note {plan : List ToolCall} {text : Bytes} {session : Session Unit}
    (h : Performs s plan (w.noted text) session) :
    Performs s plan w (note text >>= fun _ => session) := by
  obtain ⟨made, failure, w', hrun, hruns, hcalls, hrunner⟩ := h
  rw [World.noted_files] at hruns
  rw [World.noted_calls] at hcalls
  rw [World.noted_runner] at hrunner
  refine ⟨made, failure, w', ?_, hruns, hcalls, hrunner⟩
  rw [runIn_bind_ok (runIn_note text), hrun]

namespace Linker

/-- The call of a linking tool. -/
def toolCall (tool : Bytes) (args : List Bytes) : ToolCall :=
  { command := { name := tool, args }, message := tool ++ utf8 " link failed" }

theorem runTool_performs (hw : w.runner = .scripted s) (tool : Bytes) (args : List Bytes) :
    Performs s [toolCall tool args] w (runTool tool args) :=
  call_performs (c := toolCall tool args) hw rfl

/-- The tool that links on a GNU system: the C compiler driver if it is found, else the linker that was
named, else `ld.lld` if it is found, else `ld`. -/
def gnuTool (s : Script) (tools : LinkTools) : Bytes :=
  match s.paths.lookup (orDefault tools.cc (utf8 "gcc")) with
  | some path => path
  | none =>
    if tools.ld.isEmpty then (s.paths.lookup (utf8 "ld.lld")).getD (utf8 "ld") else tools.ld

/-- The call that asks for the SDK of macOS. -/
def sdkCall : ToolCall :=
  { command :=
      { name := utf8 "xcrun", args := [utf8 "--sdk", utf8 "macosx", utf8 "--show-sdk-path"] }
    message := utf8 "cannot locate the macOS SDK"
    forOutput := true }

/-- The call that asks for the version of macOS. -/
def versionCall : ToolCall :=
  { command := { name := utf8 "sw_vers", args := [utf8 "-productVersion"] }
    message := utf8 "cannot read the macOS version"
    forOutput := true }

/-- The calls that make an executable of an object. -/
def plan (s : Script) (object executable : Bytes) : Linker → List ToolCall
  | gnu tools =>
    [toolCall (gnuTool s tools) [object, utf8 "-o", executable, utf8 "-lc"]]
  | darwin tools arch =>
    let version := platformVersion (s.printed versionCall.command)
    [sdkCall, versionCall,
      toolCall (orDefault tools.ld (utf8 "ld"))
        [utf8 "-o", executable, utf8 "-arch", arch, utf8 "-platform_version", utf8 "macos", version,
         version, utf8 "-syslibroot", trim (s.printed sdkCall.command), utf8 "-e", utf8 "_main",
         object, utf8 "-lSystem"]]
  | msvc tools =>
    [toolCall (orDefault tools.link (utf8 "link.exe"))
      [object, utf8 "/OUT:" ++ executable, utf8 "msvcrt.lib",
       utf8 "legacy_stdio_definitions.lib"]]

theorem linkGnu_performs (hw : w.runner = .scripted s) (tools : LinkTools)
    (object executable : Bytes) :
    Performs s (plan s object executable (.gnu tools)) w (linkGnu tools object executable) := by
  -- Whichever tool is chosen, it is noted and run.
  have hchosen : ∀ text tool, gnuTool s tools = tool →
      Performs s (plan s object executable (.gnu tools)) w
        (note text >>= fun _ => runTool tool [object, utf8 "-o", executable, utf8 "-lc"]) := by
    intro text tool htool
    rw [plan, htool]
    refine performs_note (runTool_performs ?_ _ _)
    rw [World.noted_runner, hw]
  rw [Performs, linkGnu, runIn_bind_ok (runIn_look hw _)]
  cases hcc : s.paths.lookup (orDefault tools.cc (utf8 "gcc")) with
  | some path => exact hchosen _ _ (by rw [gnuTool, hcc])
  | none =>
    by_cases hld : tools.ld.isEmpty
    · have hlook := runIn_look hw (utf8 "ld.lld")
      cases hlld : s.paths.lookup (utf8 "ld.lld") with
      | some path =>
        rw [hlld] at hlook
        simp only [Option.elim_none, if_pos hld, runIn_bind_ok hlook]
        exact hchosen _ _ (by simp only [gnuTool, hcc, if_pos hld, hlld, Option.getD_some])
      | none =>
        rw [hlld] at hlook
        simp only [Option.elim_none, if_pos hld, runIn_bind_ok hlook]
        exact hchosen _ _ (by simp only [gnuTool, hcc, if_pos hld, hlld, Option.getD_none])
    · simp only [Option.elim_none, if_neg hld]
      exact hchosen _ _ (by simp only [gnuTool, hcc, if_neg hld])

theorem linkDarwin_performs (hw : w.runner = .scripted s) (tools : LinkTools)
    (arch object executable : Bytes) :
    Performs s (plan s object executable (.darwin tools arch)) w
      (linkDarwin tools arch object executable) := by
  refine performs_output (c := sdkCall) hw rfl ?_
  refine performs_output (c := versionCall) hw rfl ?_
  refine runTool_performs ?_ _ _
  exact hw

/-- Linking carries out the linker's plan. -/
theorem link_performs (hw : w.runner = .scripted s) (linker : Linker) (object executable : Bytes) :
    Performs s (linker.plan s object executable) w (linker.link object executable) := by
  cases linker with
  | gnu tools => exact linkGnu_performs hw tools object executable
  | darwin tools arch => exact linkDarwin_performs hw tools arch object executable
  | msvc tools => exact runTool_performs hw _ _

/-- A command is given an object, and told to make an executable. -/
def Links (object executable : Bytes) (c : Command) : Prop :=
  object ∈ c.args ∧ ([utf8 "-o", executable] <:+: c.args ∨ utf8 "/OUT:" ++ executable ∈ c.args)

/-- The last call of a plan links, and those before it only ask. -/
theorem exists_plan_eq (linker : Linker) (s : Script) (object executable : Bytes) :
    ∃ asked last, linker.plan s object executable = asked ++ [last] ∧
      (∀ c ∈ asked, c.forOutput = true) ∧ Links object executable last.command := by
  cases linker with
  | gnu tools =>
    refine ⟨[], _, rfl, List.forall_mem_nil _, List.mem_cons_self, .inl ?_⟩
    exact ⟨[object], [utf8 "-lc"], rfl⟩
  | darwin tools arch =>
    refine ⟨[sdkCall, versionCall], _, rfl,
      List.forall_mem_cons.2 ⟨rfl, List.forall_mem_singleton.2 rfl⟩, ?_, .inl ?_⟩
    · simp [toolCall]
    · exact ⟨[], _, rfl⟩
  | msvc tools =>
    refine ⟨[], _, rfl, List.forall_mem_nil _, List.mem_cons_self, .inr ?_⟩
    exact List.mem_cons_of_mem _ List.mem_cons_self

/-- A link fails in a call that is made on the files that were there. -/
theorem exists_failed_of_runs {linker : Linker} {object executable : Bytes} {fs fs' : FileSystem}
    {made : List Command} {d : Diagnostic}
    (h : Runs s fs (linker.plan s object executable) made fs' (some d)) :
    ∃ c ∈ linker.plan s object executable, ∃ cause, c.outcome s fs = (.error cause, fs') ∧
      d = .toolchain c.message cause := by
  obtain ⟨asked, last, hplan, hasked, -⟩ := linker.exists_plan_eq s object executable
  refine h.exists_failed ?_
  rw [hplan, List.dropLast_concat]
  exact hasked

end Linker

/-! ## The ways in which building ends -/

/-- The call that makes the object of a module. -/
def compileCall (path : Bytes) (m : Ir.Module) (object : Bytes) : ToolCall :=
  { command := objectCommand path m.triple object m, message := utf8 "object emission failed" }

/-- A command is given a module for the module's target, and told to make an object. -/
def Compiles (m : Ir.Module) (object : Bytes) (c : Command) : Prop :=
  c.stdin = m.text ∧ utf8 "-mtriple=" ++ m.triple ∈ c.args ∧ [utf8 "-o", object] <:+: c.args

theorem compiles_compileCall (path : Bytes) (m : Ir.Module) (object : Bytes) :
    Compiles m object (compileCall path m object).command := by
  refine ⟨rfl, ?_, ?_⟩
  · simp [compileCall, objectCommand]
  · exact ⟨[_, _, _, _], [utf8 "-"], rfl⟩

/-- The directory of the object is made, and the compiler is found at `path` and called. -/
structure CallsCompiler (s : Script) (m : Ir.Module) (llc object : Bytes) (fs fs₁ : FileSystem)
    (path : Bytes) (made : List Command) (fs' : FileSystem) (failure : Option Diagnostic) :
    Prop where
  directory : fs.makeDirectories (Path.directory object) = (fs₁, none)
  found : s.paths.lookup (orDefault llc (utf8 "llc")) = some path
  runs : Runs s fs₁ [compileCall path m object] made fs' failure

/-- What is returned if linking fails: the object. -/
def Built.kept (object : Bytes) (failure : Diagnostic) : Built :=
  { artifact := { object, success := false, message := utf8 "object kept at " ++ object }
    failure := some failure }

/-- What is returned if nothing fails. -/
def Built.whole (output object : Bytes) : Built :=
  { artifact := { output, object, message := Backend.builtMessage output } }

/-- The end of building an executable and, beside it, its object: the calls made, the files left and
what is returned. -/
inductive Building (s : Script) (m : Ir.Module) (llc : Bytes) (linker : Linker)
    (output object : Bytes) (fs : FileSystem) :
    List Command → FileSystem → Except Diagnostic Built → Prop where
  /-- The directory of the object cannot be made. -/
  | noDirectory {fs' : FileSystem} {e : PathError}
      (h : fs.makeDirectories (Path.directory object) = (fs', some e)) :
      Building s m llc linker output object fs [] fs' (.error
        (.toolchain (utf8 "cannot create directory " ++ Path.directory object) e.diagnostic))
  /-- The compiler is not found. -/
  | noCompiler {fs' : FileSystem} (hdir : fs.makeDirectories (Path.directory object) = (fs', none))
      (hpath : s.paths.lookup (orDefault llc (utf8 "llc")) = none) :
      Building s m llc linker output object fs [] fs' (.error
        (.toolchain (utf8 "cannot find " ++ orDefault llc (utf8 "llc"))
          (notFound (orDefault llc (utf8 "llc")))))
  /-- The compiler fails. -/
  | notCompiled {fs₁ fs' : FileSystem} {path : Bytes} {made : List Command} {d : Diagnostic}
      (h : CallsCompiler s m llc object fs fs₁ path made fs' (some d)) :
      Building s m llc linker output object fs made fs' (.error d)
  /-- A call of the linker fails.  The files are left as that call left them. -/
  | notLinked {fs₁ fs₂ fs' : FileSystem} {path : Bytes} {made made' : List Command} {d : Diagnostic}
      (h : CallsCompiler s m llc object fs fs₁ path made fs₂ none)
      (hlink : Runs s fs₂ (linker.plan s object output) made' fs' (some d)) :
      Building s m llc linker output object fs (made ++ made') fs' (.ok (.kept object d))
  /-- The executable cannot be marked as one. -/
  | notMarked {fs₁ fs₂ fs' : FileSystem} {path : Bytes} {made made' : List Command} {e : PathError}
      (h : CallsCompiler s m llc object fs fs₁ path made fs₂ none)
      (hlink : Runs s fs₂ (linker.plan s object output) made' fs' none)
      (hmark : fs'.setMode output 0o755 = .error e) :
      Building s m llc linker output object fs (made ++ made') fs' (.error
        (.toolchain (utf8 "cannot make " ++ output ++ utf8 " executable") e.diagnostic))
  /-- Nothing fails. -/
  | built {fs₁ fs₂ fs₃ fs' : FileSystem} {path : Bytes} {made made' : List Command}
      (h : CallsCompiler s m llc object fs fs₁ path made fs₂ none)
      (hlink : Runs s fs₂ (linker.plan s object output) made' fs₃ none)
      (hmark : fs₃.setMode output 0o755 = .ok fs') :
      Building s m llc linker output object fs (made ++ made') fs' (.ok (.whole output object))

/-- The failure that is reported: the one instead of an artifact, or the one beside it. -/
def reported? : Except Diagnostic Built → Option Diagnostic
  | .error d => some d
  | .ok b => b.failure

namespace Building

variable {m : Ir.Module} {llc : Bytes} {linker : Linker} {output object : Bytes}
  {fs fs' : FileSystem} {made : List Command} {result : Except Diagnostic Built}

theorem inOrder (h : Building s m llc linker output object fs made fs' result) :
    made = [] ∨ ∃ path fs₁ fs₂ failure, s.paths.lookup (orDefault llc (utf8 "llc")) = some path ∧
      Runs s fs₁ (compileCall path m object :: linker.plan s object output) made fs₂ failure := by
  cases h with
  | noDirectory => exact .inl rfl
  | noCompiler => exact .inl rfl
  | notCompiled h => exact .inr ⟨_, _, _, _, h.found, h.runs.append_of_failed _⟩
  | notLinked h hlink => exact .inr ⟨_, _, _, _, h.found, h.runs.append hlink⟩
  | notMarked h hlink hmark => exact .inr ⟨_, _, _, _, h.found, h.runs.append hlink⟩
  | built h hlink hmark => exact .inr ⟨_, _, _, _, h.found, h.runs.append hlink⟩

theorem of_success (h : Building s m llc linker output object fs made fs' result) {b : Built}
    (hb : result = .ok b) (hsuccess : b.artifact.success = true) :
    b = .whole output object ∧
      ∃ path fs₁ fs₂,
        Runs s fs₁ (compileCall path m object :: linker.plan s object output) made fs₂ none ∧
          fs₂.setMode output 0o755 = .ok fs' := by
  cases h with
  | noDirectory => cases hb
  | noCompiler => cases hb
  | notCompiled h => cases hb
  | notLinked h hlink =>
    cases hb
    cases hsuccess
  | notMarked h hlink hmark => cases hb
  | built h hlink hmark =>
    cases hb
    exact ⟨rfl, _, _, _, h.runs.append hlink, hmark⟩

theorem of_kept (h : Building s m llc linker output object fs made fs' result) {b : Built}
    (hb : result = .ok b) (hsuccess : b.artifact.success = false) :
    ∃ d path fs₁ fs₂ made₁ made₂, b = .kept object d ∧ made = made₁ ++ made₂ ∧
      Runs s fs₁ [compileCall path m object] made₁ fs₂ none ∧
        Runs s fs₂ (linker.plan s object output) made₂ fs' (some d) := by
  cases h with
  | noDirectory => cases hb
  | noCompiler => cases hb
  | notCompiled h => cases hb
  | notLinked h hlink =>
    cases hb
    exact ⟨_, _, _, _, _, _, rfl, rfl, h.runs, hlink⟩
  | notMarked h hlink hmark => cases hb
  | built h hlink hmark =>
    cases hb
    cases hsuccess

theorem category (h : Building s m llc linker output object fs made fs' result) {d : Diagnostic}
    (hd : reported? result = some d) : d.category = .toolchain := by
  cases h with
  | noDirectory =>
    cases hd
    rfl
  | noCompiler =>
    cases hd
    rfl
  | notCompiled h => exact h.runs.category hd
  | notLinked h hlink => exact hlink.category hd
  | notMarked h hlink hmark =>
    cases hd
    rfl
  | built h hlink hmark => cases hd

end Building

/-- A build calls its tools in order, stops at the first failure and says how far it came. -/
structure Orderly (s : Script) (m : Ir.Module) (llc : Bytes) (linker : Linker)
    (output object : Bytes) (made : List Command) (fs' : FileSystem)
    (result : Except Diagnostic Built) : Prop where
  /-- No call is made, or the compiler that was found, which is given the module, and the linker, which
  is given the object, are called in order up to the first failure. -/
  inOrder : made = [] ∨ ∃ path asked link fs₁ fs₂ failure,
    s.paths.lookup (orDefault llc (utf8 "llc")) = some path ∧
      linker.plan s object output = asked ++ [link] ∧
      Compiles m object (compileCall path m object).command ∧
      Linker.Links object output link.command ∧
      made <+: (compileCall path m object :: linker.plan s object output).map ToolCall.command ∧
      Runs s fs₁ (compileCall path m object :: linker.plan s object output) made fs₂ failure
  /-- Success means that all calls were made, none of them failed, and the executable was marked. -/
  success : ∀ b, result = .ok b → b.artifact.success = true →
    b = .whole output object ∧ ∃ path fs₁ fs₂,
      Runs s fs₁ (compileCall path m object :: linker.plan s object output) made fs₂ none ∧
        fs₂.setMode output 0o755 = .ok fs'
  /-- Lack of success is returned for a failed link only, with the object.  The files are those that the
  compiler left, but for what the failed call itself did to them; where runs that fail leave the files
  alone, as those of scripts that at most make output files, they are just those. -/
  kept : ∀ b, result = .ok b → b.artifact.success = false →
    ∃ d path fs₁ fs₂ made₁ made₂, b = .kept object d ∧ made = made₁ ++ made₂ ∧
      Runs s fs₁ [compileCall path m object] made₁ fs₂ none ∧
      Runs s fs₂ (linker.plan s object output) made₂ fs' (some d) ∧
      (∃ c ∈ linker.plan s object output, ∃ cause, c.outcome s fs₂ = (.error cause, fs') ∧
        d = .toolchain c.message cause) ∧
      (s.FailsCleanly → fs' = fs₂) ∧ (s.onRun = .idle ∨ s.onRun = .create → fs' = fs₂)
  /-- Every failure is one of the toolchain. -/
  category : ∀ d, reported? result = some d → d.category = .toolchain

theorem Building.orderly {m : Ir.Module} {llc : Bytes} {linker : Linker} {output object : Bytes}
    {fs fs' : FileSystem} {made : List Command} {result : Except Diagnostic Built}
    (h : Building s m llc linker output object fs made fs' result) :
    Orderly s m llc linker output object made fs' result where
  inOrder := by
    rcases h.inOrder with hnone | ⟨path, fs₁, fs₂, failure, hfound, hruns⟩
    · exact .inl hnone
    · obtain ⟨asked, link, hplan, -, hlinks⟩ := linker.exists_plan_eq s object output
      exact .inr ⟨path, asked, link, fs₁, fs₂, failure, hfound, hplan,
        compiles_compileCall path m object, hlinks, hruns.isPrefix, hruns⟩
  success _ hb hsuccess := h.of_success hb hsuccess
  kept _ hb hsuccess := by
    obtain ⟨d, path, fs₁, fs₂, made₁, made₂, hkept, hmade, hcompile, hlink⟩ := h.of_kept hb hsuccess
    obtain ⟨c, hc, cause, hfailed, hd⟩ := Linker.exists_failed_of_runs hlink
    have hclean : s.FailsCleanly → fs' = fs₂ := fun h => ToolCall.files_of_failsCleanly h hfailed
    exact ⟨d, path, fs₁, fs₂, made₁, made₂, hkept, hmade, hcompile, hlink, ⟨c, hc, cause, hfailed, hd⟩,
      hclean, fun h => hclean (Script.failsCleanly_of_onRun h)⟩
  category _ hd := h.category hd

/-! ## Building ends in one of these ways -/

namespace Session

theorem runIn_markExecutable_ok {path : Bytes} {files : FileSystem}
    (h : w.files.setMode path 0o755 = .ok files) :
    (markExecutable path).runIn w = (.ok (), { w with files }) := by
  rw [markExecutable, runIn_changeFiles, h]

theorem runIn_markExecutable_error {path : Bytes} {e : PathError}
    (h : w.files.setMode path 0o755 = .error e) :
    (markExecutable path).runIn w =
      (.error (.toolchain (utf8 "cannot make " ++ path ++ utf8 " executable") e.diagnostic), w) := by
  rw [markExecutable, runIn_changeFiles, h]

end Session

section

variable {m : Ir.Module}

/-- Verified modules go to the compiler, if it is found. -/
theorem emitObject_runIn (hw : w.runner = .scripted s) (hm : m.verify = .ok ())
    (llc object : Bytes) :
    (emitObject llc m m.triple object).runIn w =
      match s.paths.lookup (orDefault llc (utf8 "llc")) with
      | none =>
        (.error (.toolchain (utf8 "cannot find " ++ orDefault llc (utf8 "llc"))
          (notFound (orDefault llc (utf8 "llc")))), w)
      | some path =>
        (note (utf8 "Emitindo objeto " ++ object ++ utf8 "...\n") >>= fun _ =>
          call (compileCall path m object).command >>=
            orToolchainError (compileCall path m object).message).runIn w := by
  have hverify : (ofExcept Ir.Fault.diagnostic m.verify).runIn w = (.ok (), w) := by
    rw [hm]
    rfl
  rw [emitObject, runIn_bind_ok hverify, runIn_bind_ok (runIn_look hw _)]
  cases s.paths.lookup (orDefault llc (utf8 "llc")) <;> rfl

theorem emitObject_performs {llc path : Bytes} (hw : w.runner = .scripted s)
    (hm : m.verify = .ok ()) (hpath : s.paths.lookup (orDefault llc (utf8 "llc")) = some path)
    (object : Bytes) :
    Performs s [compileCall path m object] w (emitObject llc m m.triple object) := by
  rw [Performs, emitObject_runIn hw hm llc object, hpath]
  refine performs_note (call_performs ?_ rfl)
  rw [World.noted_runner, hw]

end

namespace Backend

variable {linker : Linker} {object output : Bytes}

theorem linkObject_runIn (hw : w.runner = .scripted s) (linker : Linker) (object output : Bytes) :
    ∃ made failure w', (linkObject linker object output).runIn w = (.ok failure, w') ∧
      Runs s w.files (linker.plan s object output) made w'.files failure ∧
        w'.calls = w.calls ++ made := by
  obtain ⟨made, failure, w', hrun, hruns, hcalls, -⟩ :=
    Linker.link_performs hw linker object output
  refine ⟨made, failure, w', ?_, hruns, hcalls⟩
  rw [linkObject, runIn_tryCatch]
  cases failure with
  | none =>
    rw [runIn_bind_ok hrun]
    rfl
  | some d =>
    rw [runIn_bind_error hrun]
    rfl

/-- Linking what was compiled, and marking what was linked. -/
theorem linkObject_ends {m : Ir.Module} {llc path : Bytes} {fs fs₁ : FileSystem}
    {calls made : List Command} (hw : w.runner = .scripted s)
    (hcompiled : CallsCompiler s m llc object fs fs₁ path made w.files none)
    (hcalls : w.calls = calls ++ made) :
    ∃ made result w',
      (linkObject linker object output >>= fun failure =>
        match failure with
        | some d => pure (.kept object d)
        | none => markExecutable output >>= fun _ => pure (.whole output object)).runIn w =
          (result, w') ∧
      w'.calls = calls ++ made ∧
        Building s m llc linker output object fs made w'.files result := by
  obtain ⟨made', failure, w₁, hrun, hruns, hcalls₁⟩ :=
    linkObject_runIn hw linker object output
  rw [hcalls, List.append_assoc] at hcalls₁
  rw [runIn_bind_ok hrun]
  cases failure with
  | some d => exact ⟨_, _, w₁, rfl, hcalls₁, .notLinked hcompiled hruns⟩
  | none =>
    cases hmark : w₁.files.setMode output 0o755 with
    | error e =>
      refine ⟨_, _, w₁, runIn_bind_error (runIn_markExecutable_error hmark), hcalls₁, ?_⟩
      exact .notMarked hcompiled hruns hmark
    | ok files =>
      refine ⟨_, _, { w₁ with files }, runIn_bind_ok (runIn_markExecutable_ok hmark), hcalls₁, ?_⟩
      exact .built hcompiled hruns hmark

/-- A lowered module is one for the target, and passes verification. -/
theorem verify_of_lower {p : Program} {triple : Bytes} {m : Ir.Module}
    (h : p.lower triple = .ok m) : m.triple = triple ∧ m.verify = .ok () := by
  obtain ⟨g, hwalk, rfl⟩ := Ir.walk_of_lower h
  exact ⟨rfl, Ir.LowerState.finish_verifies (Ir.LowerState.typed_of_walk hwalk)⟩

/-- Building a lowered program has no ends but those of `Building`. -/
theorem buildExecutable_ends {p : Program} {triple : Bytes} {m : Ir.Module}
    (hw : w.runner = .scripted s) (hlower : p.lower triple = .ok m) (llc output : Bytes)
    (linker : Linker) :
    ∃ made result w', (buildExecutable p triple llc linker output).runIn w = (result, w') ∧
      w'.calls = w.calls ++ made ∧
        Building s m llc linker output (Path.objectBeside output) w.files made w'.files result := by
  obtain ⟨rfl, hverify⟩ := verify_of_lower hlower
  have hgenerate := generateModule_runIn p m.triple w
  rw [hlower] at hgenerate
  rw [buildExecutable, runIn_bind_ok hgenerate]
  generalize Path.objectBeside output = object
  -- The directory of the object.
  have hparent := runIn_makeParent (w.noted (p.lowerTrace m.triple)) object
  rw [World.noted_files] at hparent
  rcases hdir : w.files.makeDirectories (Path.directory object) with ⟨fs₁, e⟩
  rw [hdir] at hparent
  generalize hw₁ : { w.noted (p.lowerTrace m.triple) with files := (fs₁, e).1 } = w₁ at hparent
  have hcalls₁ : w₁.calls = w.calls := by
    rw [← hw₁]
    exact World.noted_calls w _
  have hrunner₁ : w₁.runner = .scripted s := by
    rw [← hw₁, ← hw]
    exact World.noted_runner w _
  obtain rfl : w₁.files = fs₁ := by rw [← hw₁]
  cases e with
  | some e =>
    refine ⟨[], _, w₁, runIn_bind_error hparent, ?_, .noDirectory hdir⟩
    rw [hcalls₁, List.append_nil]
  | none =>
  rw [runIn_bind_ok hparent]
  -- The compiler.
  cases hpath : s.paths.lookup (orDefault llc (utf8 "llc")) with
  | none =>
    have hemit := emitObject_runIn hrunner₁ hverify llc object
    rw [hpath] at hemit
    refine ⟨[], _, w₁, runIn_bind_error hemit, ?_, .noCompiler hdir hpath⟩
    rw [hcalls₁, List.append_nil]
  | some path =>
  obtain ⟨made, failure, w₂, hemit, hcompile, hcalls₂, hrunner₂⟩ :=
    emitObject_performs hrunner₁ hverify hpath object
  have hcompiled : CallsCompiler s m llc object w.files w₁.files path made w₂.files failure :=
    ⟨hdir, hpath, hcompile⟩
  rw [hcalls₁] at hcalls₂
  cases failure with
  | some d => exact ⟨made, _, w₂, runIn_bind_error hemit, hcalls₂, .notCompiled hcompiled⟩
  | none =>
  -- The linker.
  rw [runIn_bind_ok hemit, runIn_bind_ok (runIn_note _)]
  rw [← World.noted_files w₂ _] at hcompiled
  exact linkObject_ends (by rw [World.noted_runner, hrunner₂, hrunner₁]) hcompiled
    (by rw [World.noted_calls, hcalls₂])

/-- Building an executable with the tools of a script.  A program that cannot be lowered is refused
without a call or a change to the files.  Any other is built in one of the ways of `Building`, and so in
order and up to the first failure. -/
theorem native_stops_at_first_failure (p : Program) (triple llc output : Bytes) (linker : Linker)
    (s : Script) (w : World) :
    let run := ((native triple llc linker).compile p output).runIn { w with runner := .scripted s }
    let object := Path.objectBeside output
    match p.lower triple with
    | .error e => run.1 = .error e.diagnostic ∧ run.2.calls = w.calls ∧ run.2.files = w.files
    | .ok m =>
      m.triple = triple ∧ ∃ made,
        run.2.calls = w.calls ++ made ∧
        Building s m llc linker output object w.files made run.2.files run.1 ∧
        Orderly s m llc linker output object made run.2.files run.1 := by
  intro run object
  cases hlower : p.lower triple with
  | error e =>
    have hgenerate := generateModule_runIn p triple { w with runner := .scripted s }
    rw [hlower] at hgenerate
    have hrun : run = (.error e.diagnostic, _) := runIn_bind_error hgenerate
    simp only [hrun, World.noted_calls, World.noted_files, and_self]
  | ok m =>
    obtain ⟨made, result, w', hrun, hcalls, hbuilding⟩ :=
      buildExecutable_ends (w := { w with runner := .scripted s }) rfl hlower llc output linker
    have hrun' : run = (result, w') := hrun
    rw [hrun']
    exact ⟨(verify_of_lower hlower).1, made, hcalls, hbuilding, hbuilding.orderly⟩

end Backend

end LetPrint
