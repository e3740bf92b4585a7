import LetPrint.Proofs.FailFast
import LetPrint.Proofs.Stepwise

/-!
# A trace changes nothing but itself

Two runs of one session, with a trace and without: `IgnoresTracing` says that they have the same result
and leave the same world, but for the trace, which the one run extends and the other leaves alone.

* Sessions that never look at the trace have this property (`IgnoresTracing.of_silent`), notes have it,
  and it is kept by everything that sessions are built with.
* It is therefore a property of each stage of the pipeline in the form that has its trace points in place
  (`readStepwise`, `interpretStepwise` and so on), where notes stand between the steps and some work is
  done only if a trace is kept.
* `compile_ignores_tracing` follows for the whole pipeline, whatever the backend, the tools and the files.
-/

namespace LetPrint

open Text

/-- The world with tracing switched on or off, and with the given trace. -/
def World.withTrace (w : World) (tracing : Bool) (trace : Bytes) : World :=
  { w with tracing, trace }

namespace Session

/-- With a trace and without, the session has the same result and leaves the same world.  With a trace
it adds to the trace; what it adds does not depend on what is there. -/
def IgnoresTracing {α : Type} (s : Session α) : Prop :=
  ∀ w : World, ∃ (result : Except Diagnostic α) (w' : World) (added : Bytes), ∀ trace,
    s.runIn (w.withTrace true trace) = (result, w'.withTrace true (trace ++ added)) ∧
      s.runIn (w.withTrace false trace) = (result, w'.withTrace false trace)

namespace IgnoresTracing

variable {α β : Type} {s : Session α} {f : α → Session β}

/-- The property is one of what a session does. -/
theorem of_eq {s' : Session α} (hs : ∀ w, s.runIn w = s'.runIn w) (h : IgnoresTracing s') :
    IgnoresTracing s := by
  intro w
  obtain ⟨result, w', added, hrun⟩ := h w
  refine ⟨result, w', added, fun trace => ⟨?_, ?_⟩⟩
  · rw [hs, (hrun trace).1]
  · rw [hs, (hrun trace).2]

/-- A session that neither reads nor changes the trace. -/
theorem of_silent (h : ∀ w on trace, s.runIn (w.withTrace on trace) =
    ((s.runIn w).1, (s.runIn w).2.withTrace on trace)) : IgnoresTracing s := by
  intro w
  refine ⟨(s.runIn w).1, (s.runIn w).2, [], fun trace => ⟨?_, h w false trace⟩⟩
  rw [List.append_nil]
  exact h w true trace

theorem pure (a : α) : IgnoresTracing (Pure.pure a) :=
  of_silent fun _ _ _ => rfl

theorem throw (d : Diagnostic) : IgnoresTracing (MonadExcept.throw d : Session α) :=
  of_silent fun _ _ _ => rfl

theorem ofExcept {ε : Type} (diagnostic : ε → Diagnostic) (x : Except ε α) :
    IgnoresTracing (Session.ofExcept diagnostic x) := by
  cases x with
  | error e => exact throw _
  | ok a => exact pure a

theorem note (text : Bytes) : IgnoresTracing (Session.note text) := by
  intro w
  exact ⟨.ok (), w, text, fun _ => ⟨rfl, rfl⟩⟩

/-- What is done in one of the two runs only has to add to the trace and do nothing else. -/
theorem whenTracing {s : Session Unit} {text : Bytes}
    (h : ∀ w, s.runIn w = (.ok (), w.noted text)) : IgnoresTracing (Session.whenTracing s) :=
  of_eq (runIn_whenTracing h) (note text)

theorem display (text : Bytes) : IgnoresTracing (Session.display text) :=
  of_silent fun _ _ _ => rfl

/-- The parts of a sequence may trace, each in its turn. -/
theorem bind (hs : IgnoresTracing s) (hf : ∀ a, IgnoresTracing (f a)) :
    IgnoresTracing (s >>= f) := by
  intro w
  obtain ⟨result, w₁, added, hrun⟩ := hs w
  cases result with
  | error d =>
    refine ⟨.error d, w₁, added, fun trace => ⟨?_, ?_⟩⟩
    · exact runIn_bind_error (hrun trace).1
    · exact runIn_bind_error (hrun trace).2
  | ok a =>
    obtain ⟨result, w', added', hrun'⟩ := hf a w₁
    refine ⟨result, w', added ++ added', fun trace => ⟨?_, ?_⟩⟩
    · rw [runIn_bind_ok (hrun trace).1, (hrun' _).1, List.append_assoc]
    · rw [runIn_bind_ok (hrun trace).2, (hrun' _).2]

/-- What is made of the world may depend on all of it but the trace. -/
theorem get_bind {f : World → Session β} (hf : ∀ w, IgnoresTracing (f w))
    (hblind : ∀ w on trace, f (w.withTrace on trace) = f w) :
    IgnoresTracing (MonadState.get >>= f) := by
  intro w
  obtain ⟨result, w', added, hrun⟩ := hf w w
  refine ⟨result, w', added, fun trace => ⟨?_, ?_⟩⟩
  · rw [runIn_bind_ok runIn_get, hblind, (hrun trace).1]
  · rw [runIn_bind_ok runIn_get, hblind, (hrun trace).2]

theorem tryCatch {handle : Diagnostic → Session α} (hs : IgnoresTracing s)
    (hhandle : ∀ d, IgnoresTracing (handle d)) :
    IgnoresTracing (MonadExcept.tryCatch s handle) := by
  intro w
  obtain ⟨result, w₁, added, hrun⟩ := hs w
  cases result with
  | ok a =>
    refine ⟨.ok a, w₁, added, fun trace => ⟨?_, ?_⟩⟩
    · rw [runIn_tryCatch, (hrun trace).1]
    · rw [runIn_tryCatch, (hrun trace).2]
  | error d =>
    obtain ⟨result, w', added', hrun'⟩ := hhandle d w₁
    refine ⟨result, w', added ++ added', fun trace => ⟨?_, ?_⟩⟩
    · rw [runIn_tryCatch, (hrun trace).1, ← List.append_assoc]
      exact (hrun' _).1
    · rw [runIn_tryCatch, (hrun trace).2]
      exact (hrun' _).2

/-! ## Tools and files -/

theorem look (name : Bytes) : IgnoresTracing (Session.look name) :=
  of_silent fun _ _ _ => rfl

/-- Calls are traced only by runners that say so. -/
theorem record (c : Command) : IgnoresTracing (Session.record c) := by
  refine bind (of_silent fun _ _ _ => rfl) fun _ => get_bind (fun w => ?_) fun _ _ _ => rfl
  split
  · exact note _
  · exact pure ()

theorem call (c : Command) : IgnoresTracing (Session.call c) :=
  (record c).bind fun _ => of_silent fun _ _ _ => rfl

theorem callForOutput (c : Command) : IgnoresTracing (Session.callForOutput c) :=
  (record c).bind fun _ => of_silent fun _ _ _ => rfl

theorem orToolchainError (message : Bytes) (x : Except Diagnostic α) :
    IgnoresTracing (Session.orToolchainError message x) :=
  ofExcept _ x

theorem changeFiles (message : Bytes) (change : FileSystem → Except PathError FileSystem) :
    IgnoresTracing (Session.changeFiles message change) := by
  refine of_silent fun w on trace => ?_
  have hfiles : (w.withTrace on trace).files = w.files := rfl
  rw [Session.changeFiles, runIn_bind_ok runIn_get, runIn_bind_ok runIn_get, hfiles]
  cases change w.files <;> rfl

theorem makeParent (path : Bytes) : IgnoresTracing (Session.makeParent path) := by
  refine of_silent fun w on trace => ?_
  have hfiles : (w.withTrace on trace).files = w.files := rfl
  rw [Session.makeParent, runIn_bind_ok runIn_get, runIn_bind_ok runIn_get, hfiles]
  rcases w.files.makeDirectories (Path.directory path) with ⟨files, failure⟩
  cases failure <;> rfl

theorem save (path content : Bytes) : IgnoresTracing (Session.save path content) :=
  (makeParent path).bind fun _ => changeFiles _ _

theorem emitObject (llc : Bytes) (m : Ir.Module) (triple object : Bytes) :
    IgnoresTracing (emitObject llc m triple object) := by
  refine (ofExcept _ _).bind fun _ => (look _).bind fun _ => (orToolchainError _ _).bind fun _ => ?_
  exact (note _).bind fun _ => (call _).bind fun _ => orToolchainError _ _

theorem runTool (tool : Bytes) (args : List Bytes) : IgnoresTracing (Linker.runTool tool args) :=
  (call _).bind fun _ => orToolchainError _ _

theorem linkGnu (tools : LinkTools) (object executable : Bytes) :
    IgnoresTracing (Linker.linkGnu tools object executable) := by
  have hlink : ∀ text tool args,
      IgnoresTracing (Session.note text >>= fun _ => Linker.runTool tool args) :=
    fun text tool args => (note text).bind fun _ => runTool tool args
  refine (look _).bind fun found => ?_
  cases found with
  | ok path => exact hlink _ _ _
  | error d =>
    dsimp only
    split
    · refine (look _).bind fun found => ?_
      cases found <;> exact hlink _ _ _
    · exact hlink _ _ _

theorem linkDarwin (tools : LinkTools) (arch object executable : Bytes) :
    IgnoresTracing (Linker.linkDarwin tools arch object executable) := by
  refine (callForOutput _).bind fun _ => (orToolchainError _ _).bind fun _ => ?_
  exact (callForOutput _).bind fun _ => (orToolchainError _ _).bind fun _ => runTool _ _

theorem link (linker : Linker) (object executable : Bytes) :
    IgnoresTracing (linker.link object executable) := by
  cases linker with
  | gnu tools => exact linkGnu tools object executable
  | darwin tools arch => exact linkDarwin tools arch object executable
  | msvc tools => exact runTool _ _

/-! ## Stages with their trace points in place -/

theorem noteTokens (raw : Bytes) : IgnoresTracing (Session.noteTokens raw) :=
  of_eq (runIn_noteTokens raw) (note (valueTrace raw))

theorem readLineStepwise (number : Nat) (raw : Bytes) :
    IgnoresTracing (Session.readLineStepwise number raw) := by
  refine (noteTokens raw).bind fun _ => (ofExcept _ _).bind fun statement => ?_
  cases statement with
  | none => exact pure none
  | some s => exact (note _).bind fun _ => pure (some s)

theorem readLinesStepwise (number : Nat) (lines : List Bytes) :
    IgnoresTracing (Session.readLinesStepwise number lines) := by
  induction lines generalizing number with
  | nil => exact pure []
  | cons raw lines ih =>
    exact (readLineStepwise number raw).bind fun _ => (ih _).bind fun _ => pure _

theorem readProgram (source : Bytes) : IgnoresTracing (Session.readProgram source) :=
  of_eq (readProgram_eq_readStepwise source) (readLinesStepwise 1 (splitOn newline source))

/-- A pass may note something before each statement. -/
theorem throughStepwise {τ : Type} {handle : τ → Stmt → Session τ}
    (hhandle : ∀ t stmt, IgnoresTracing (handle t stmt)) (announcement : Nat → Stmt → Bytes)
    (index : Nat) (t : τ) (p : Program) :
    IgnoresTracing (Session.throughStepwise announcement handle index t p) := by
  induction p generalizing index t with
  | nil => exact pure t
  | cons stmt p ih =>
    exact (note _).bind fun _ => (hhandle t stmt).bind fun t => ih (index + 1) t

end IgnoresTracing

end Session

/-! ## Backends -/

namespace Backend

open Session

theorem executeStmt_ignoresTracing (values : Values) (stmt : Stmt) :
    IgnoresTracing (executeStmt values stmt) := by
  refine IgnoresTracing.get_bind (fun w => ?_) fun _ _ _ => rfl
  refine (IgnoresTracing.ofExcept _ _).bind fun s => ?_
  exact (IgnoresTracing.of_silent fun _ _ _ => rfl).bind fun _ => .pure s.values

theorem endRun_ignoresTracing (stop : MachineStop) : IgnoresTracing (endRun stop) := by
  refine (IgnoresTracing.note _).bind fun _ => ?_
  split
  · exact .pure ()
  · exact .throw _

theorem runStepwise_ignoresTracing (strings : List Bytes) (pc : Nat) (m : Machine)
    (code : List Instruction) : IgnoresTracing (runStepwise strings pc m code) := by
  induction code generalizing pc m with
  | nil => exact endRun_ignoresTracing _
  | cons i code ih =>
    rw [runStepwise]
    split
    · exact endRun_ignoresTracing _
    · refine IgnoresTracing.get_bind (fun w => ?_) fun _ _ _ => rfl
      dsimp only
      split
      · exact (IgnoresTracing.of_silent fun _ _ _ => rfl).bind fun _ => ih _ _
      · exact endRun_ignoresTracing _
      · exact endRun_ignoresTracing _

theorem executeChunk_ignoresTracing (c : Chunk) : IgnoresTracing (executeChunk c) := by
  refine .of_eq (executeChunk_eq_executeStepwise c) ?_
  refine (IgnoresTracing.note _).bind fun _ => ?_
  refine (IgnoresTracing.whenTracing (runIn_listStepwise 0 c.code)).bind fun _ => ?_
  exact .get_bind (fun w => runStepwise_ignoresTracing _ _ _ _) fun _ _ _ => rfl

variable (p : Program)

theorem interpret_ignoresTracing : IgnoresTracing (interpret p) := by
  refine .of_eq (interpret_eq_interpretStepwise p) ?_
  refine (IgnoresTracing.note _).bind fun _ => ?_
  exact (IgnoresTracing.throughStepwise executeStmt_ignoresTracing _ _ _ p).bind fun _ => .pure _

theorem generateChunk_ignoresTracing : IgnoresTracing (generateChunk p) := by
  refine .of_eq (generateChunk_eq_generateChunkStepwise p) ?_
  refine (IgnoresTracing.note _).bind fun _ => ?_
  exact (IgnoresTracing.throughStepwise (fun _ _ => .ofExcept _ _) _ _ _ p).bind fun _ => .pure _

theorem executeProgram_ignoresTracing : IgnoresTracing (executeProgram p) :=
  (generateChunk_ignoresTracing p).bind fun c =>
    (executeChunk_ignoresTracing c).bind fun _ => .pure _

theorem generateModule_ignoresTracing (triple : Bytes) :
    IgnoresTracing (generateModule p triple) := by
  refine .of_eq (generateModule_eq_generateModuleStepwise p triple) ?_
  refine (IgnoresTracing.note _).bind fun _ => ?_
  exact (IgnoresTracing.throughStepwise (fun _ _ => .ofExcept _ _) _ _ _ p).bind fun _ => .pure _

theorem writeModule_ignoresTracing (triple output : Bytes) :
    IgnoresTracing (writeModule p triple output) := by
  refine (generateModule_ignoresTracing p triple).bind fun m => ?_
  refine (IgnoresTracing.ofExcept _ _).bind fun _ => (IgnoresTracing.save _ _).bind fun _ => ?_
  exact (IgnoresTracing.note _).bind fun _ => .pure _

theorem buildExecutable_ignoresTracing (triple llc : Bytes) (linker : Linker) (output : Bytes) :
    IgnoresTracing (buildExecutable p triple llc linker output) := by
  have hlink : ∀ object, IgnoresTracing (linkObject linker object output) := fun object =>
    .tryCatch ((IgnoresTracing.link linker object output).bind fun _ => .pure _) fun _ => .pure _
  refine (generateModule_ignoresTracing p triple).bind fun m => ?_
  refine (IgnoresTracing.makeParent _).bind fun _ => ?_
  refine (IgnoresTracing.emitObject llc m triple _).bind fun _ => ?_
  refine (IgnoresTracing.note _).bind fun _ => (hlink _).bind fun failure => ?_
  cases failure with
  | some d => exact .pure _
  | none => exact (IgnoresTracing.changeFiles _ _).bind fun _ => .pure _

theorem compile_ignoresTracing (backend : Backend) (output : Bytes) :
    IgnoresTracing (backend.compile p output) := by
  cases backend with
  | interp => exact interpret_ignoresTracing p
  | vm => exact executeProgram_ignoresTracing p
  | ir triple => exact writeModule_ignoresTracing p triple output
  | native triple llc linker => exact buildExecutable_ignoresTracing p triple llc linker output

theorem ofName_ignoresTracing (name : Bytes) (profile : Profile) :
    IgnoresTracing (ofName name profile) := by
  unfold ofName
  split
  · exact .pure _
  split
  · exact .pure _
  split
  · exact .pure _
  split
  · exact (IgnoresTracing.note _).bind fun _ => .pure _
  · exact .throw _

end Backend

/-! ## The pipeline -/

open Session

theorem displayIf_ignoresTracing (wanted : Bool) (text : Bytes) :
    IgnoresTracing (displayIf wanted text) := by
  cases wanted with
  | false => exact .pure ()
  | true => exact .display text

theorem compileSource_ignoresTracing (backend : Backend) (showing : Showing)
    (source output : Bytes) : IgnoresTracing (compileSource backend showing source output) := by
  have hfront : IgnoresTracing (front showing source) := by
    refine (IgnoresTracing.note _).bind fun _ => (IgnoresTracing.readProgram source).bind fun p => ?_
    refine (IgnoresTracing.note _).bind fun _ => ?_
    refine (displayIf_ignoresTracing _ _).bind fun _ => (displayIf_ignoresTracing _ _).bind fun _ => ?_
    exact (IgnoresTracing.ofExcept _ _).bind fun _ => (IgnoresTracing.note _).bind fun _ => .pure p
  rw [compileSource_eq]
  exact hfront.bind fun p => Backend.compile_ignoresTracing p backend output

/-- Tracing does not interfere.  Choosing a backend by its name and compiling a source text with it has
the same result with a trace and without, a failure with the same diagnostic included; what is shown,
the output of the program, the files, the calls made to tools with their arguments and their input, and
what tools printed are the same.  Without a trace, none is added to; with one, something may be added
to it, and that is all. -/
theorem compile_ignores_tracing (name : Bytes) (profile : Profile) (showing : Showing)
    (source output : Bytes) (w : World) :
    let session : Session Built := do
      let backend ← Backend.ofName name profile
      compileSource backend showing source output
    let traced := session.runIn { w with tracing := true }
    let untraced := session.runIn { w with tracing := false }
    traced.1 = untraced.1 ∧ untraced.2.tracing = false ∧ untraced.2.trace = w.trace ∧
      ∃ added, traced.2 = { untraced.2 with tracing := true, trace := w.trace ++ added } := by
  intro session
  have hsession : IgnoresTracing session :=
    (Backend.ofName_ignoresTracing name profile).bind fun backend =>
      compileSource_ignoresTracing backend showing source output
  obtain ⟨result, w', added, hrun⟩ := hsession w
  have htraced : session.runIn { w with tracing := true } =
      (result, w'.withTrace true (w.trace ++ added)) := (hrun w.trace).1
  have huntraced : session.runIn { w with tracing := false } =
      (result, w'.withTrace false w.trace) := (hrun w.trace).2
  rw [htraced, huntraced]
  exact ⟨rfl, rfl, rfl, added, rfl⟩

end LetPrint
