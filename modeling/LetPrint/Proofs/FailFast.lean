import LetPrint.Pipeline
import LetPrint.Proofs.KindRules
import LetPrint.Proofs.Parsed

/-!
# Nothing is handed on unless it is checked

What a compilation does with source texts that cannot be read or break the rules, and with those that
can be read and keep them.

* `analyse` is what reading and checking make of a source text, without a world.  `Shows.front` says
  that the steps before the backend compute it and touch nothing but the trace and what is shown.
* `FailsLate` holds of a session whose failures all come from later phases; tools, linkers and files
  have it whatever they do.
* `Program.checked_of_analyse` is the soundness of the checker: what it accepts, every backend can
  generate code for, and the interpreter runs without a fault but for refused writes.
* `compileSource_fails_fast` puts the two together for the four backends.
-/

namespace LetPrint

open Text Session

/-! ## Reading and checking -/

/-- The program that a source text spells, if it can be read and keeps the rules. -/
def analyse (source : Bytes) : Except Diagnostic Program :=
  match Program.parse source with
  | .error e => .error e.diagnostic
  | .ok p =>
    match p.kinds with
    | .error e => .error e.diagnostic
    | .ok _ => .ok p

theorem analyse_eq_ok_iff {source : Bytes} {p : Program} :
    analyse source = .ok p ↔ Program.parse source = .ok p ∧ ∃ kinds, p.kinds = .ok kinds := by
  constructor
  · intro h
    rw [analyse] at h
    split at h
    case h_1 => cases h
    case h_2 p' hparse =>
      split at h
      case h_1 => cases h
      case h_2 kinds hkinds =>
        cases h
        exact ⟨hparse, kinds, hkinds⟩
  · rintro ⟨hparse, kinds, hkinds⟩
    simp only [analyse, hparse, hkinds]

/-- Show something on demand. -/
def displayIf (wanted : Bool) (text : Bytes) : Session Unit :=
  if wanted then display text else pure ()

/-- The steps of a compilation up to the backend. -/
def front (showing : Showing) (source : Bytes) : Session Program := do
  note (utf8 "Analisando...\n")
  let program ← readProgram source
  note (decimal program.length ++ utf8 " statements\n")
  displayIf showing.tree program.drawn
  displayIf showing.outline (Outline.program program ++ utf8 "\n")
  let kinds ← ofExcept SemanticError.diagnostic program.kinds
  note (utf8 "Kinds: " ++ kinds.outline ++ utf8 "\n")
  return program

theorem compileSource_eq (backend : Backend) (showing : Showing) (source output : Bytes) :
    compileSource backend showing source output =
      front showing source >>= fun p => backend.compile p output := by
  unfold compileSource front displayIf
  cases showing.tree <;> cases showing.outline <;> simp

/-- The category of a rejected source text is that of the phase that rejects it. -/
theorem category_of_analyse {source : Bytes} {d : Diagnostic} (h : analyse source = .error d) :
    d.category = .parse ∨ d.category = .semantic := by
  rw [analyse] at h
  split at h
  case h_1 e _ =>
    cases h
    left
    unfold ParseError.diagnostic
    split <;> rfl
  case h_2 =>
    split at h
    · cases h
      exact .inr rfl
    · cases h

/-- A session that always ends with `r`, and changes at most the trace and what is shown. -/
def Shows {α : Type} (s : Session α) (r : Except Diagnostic α) : Prop :=
  ∀ w : World, ∃ trace shown, s.runIn w = (r, { w with trace, shown })

namespace Shows

variable {α β : Type} {s : Session α} {f : α → Session β}

theorem bind {a : α} {r : Except Diagnostic β} (hs : Shows s (.ok a)) (hf : Shows (f a) r) :
    Shows (s >>= f) r := by
  intro w
  obtain ⟨trace, shown, hw⟩ := hs w
  obtain ⟨trace', shown', hw'⟩ := hf { w with trace, shown }
  exact ⟨trace', shown', by rw [runIn_bind_ok hw, hw']⟩

theorem bind_error {d : Diagnostic} (hs : Shows s (.error d)) : Shows (s >>= f) (.error d) := by
  intro w
  obtain ⟨trace, shown, hw⟩ := hs w
  exact ⟨trace, shown, runIn_bind_error hw⟩

theorem ofExcept {ε : Type} (diagnostic : ε → Diagnostic) (x : Except ε α) :
    Shows (Session.ofExcept diagnostic x) (x.mapError diagnostic) := by
  intro w
  exact ⟨w.trace, w.shown, runIn_ofExcept diagnostic x⟩

theorem note (text : Bytes) : Shows (Session.note text) (.ok ()) := by
  intro w
  refine ⟨(w.noted text).trace, w.shown, ?_⟩
  rw [runIn_note, ← World.noted_eq]

theorem displayIf (wanted : Bool) (text : Bytes) : Shows (displayIf wanted text) (.ok ()) := by
  intro w
  cases wanted with
  | false => exact ⟨w.trace, w.shown, rfl⟩
  | true => exact ⟨w.trace, w.shown ++ text, rfl⟩

theorem readProgram (source : Bytes) :
    Shows (Session.readProgram source) ((Program.parse source).mapError ParseError.diagnostic) :=
  (note _).bind (ofExcept _ _)

/-- Reading and checking give the analysis of the source text. -/
theorem front (showing : Showing) (source : Bytes) :
    Shows (front showing source) (analyse source) := by
  have hread := readProgram source
  refine (note _).bind ?_
  cases hparse : Program.parse source with
  | error e =>
    have hanalyse : analyse source = .error e.diagnostic := by simp only [analyse, hparse]
    rw [hparse] at hread
    rw [hanalyse]
    exact hread.bind_error
  | ok p =>
    rw [hparse] at hread
    refine hread.bind ((note _).bind ((displayIf _ _).bind ((displayIf _ _).bind ?_)))
    have hcheck := ofExcept SemanticError.diagnostic p.kinds
    cases hkinds : p.kinds with
    | error e =>
      have hanalyse : analyse source = .error e.diagnostic := by
        simp only [analyse, hparse, hkinds]
      rw [hkinds] at hcheck
      rw [hanalyse]
      exact hcheck.bind_error
    | ok kinds =>
      have hanalyse : analyse source = .ok p := by simp only [analyse, hparse, hkinds]
      rw [hkinds] at hcheck
      rw [hanalyse]
      exact hcheck.bind ((note _).bind fun w => ⟨w.trace, w.shown, rfl⟩)

end Shows

/-! ## Steps that no source text can break -/

/-- A diagnostic of a phase behind reading and checking. -/
def Diagnostic.IsLate (d : Diagnostic) : Prop :=
  d.category ≠ .parse ∧ d.category ≠ .semantic

theorem Diagnostic.isLate_toolchain (message : Bytes) (cause : Diagnostic) :
    (Diagnostic.toolchain message cause).IsLate := by
  simp [IsLate, toolchain, category, report?]

theorem Diagnostic.isLate_verification (message : Bytes) :
    (Diagnostic.verification message).IsLate := by
  simp [IsLate, verification, category, report?]

/-- A session whose failures all come from a phase behind reading and checking. -/
abbrev FailsLate {α : Type} (s : Session α) : Prop :=
  Ensures Diagnostic.IsLate (fun _ => True) s

namespace FailsLate

variable {α β : Type} {s : Session α} {f : α → Session β}

theorem bind {returns : β → Prop} (hs : FailsLate s)
    (hf : ∀ a, Ensures Diagnostic.IsLate returns (f a)) :
    Ensures Diagnostic.IsLate returns (s >>= f) :=
  Ensures.bind hs fun a _ => hf a

theorem note (text : Bytes) : FailsLate (Session.note text) :=
  .of_runIn fun w => ⟨(), w.noted text, rfl⟩

theorem look (name : Bytes) : FailsLate (Session.look name) :=
  .of_runIn fun w => ⟨w.runner.look w.files name, w, rfl⟩

theorem get : FailsLate (MonadState.get : Session World) :=
  .of_runIn fun w => ⟨w, w, rfl⟩

theorem set (w : World) : FailsLate (MonadStateOf.set w : Session PUnit) :=
  .of_runIn fun _ => ⟨⟨⟩, w, rfl⟩

theorem record (c : Command) : FailsLate (Session.record c) := by
  refine bind (.of_runIn fun _ => ⟨_, _, rfl⟩) fun _ => get.bind fun w => ?_
  split
  · exact note _
  · exact .pure trivial

theorem call (c : Command) : FailsLate (Session.call c) :=
  (record c).bind fun _ => get.bind fun _ => (set _).bind fun _ => .pure trivial

theorem callForOutput (c : Command) : FailsLate (Session.callForOutput c) :=
  (record c).bind fun _ => get.bind fun _ => (set _).bind fun _ => .pure trivial

theorem orToolchainError (message : Bytes) (x : Except Diagnostic α) :
    FailsLate (Session.orToolchainError message x) :=
  .ofExcept (fun e _ => Diagnostic.isLate_toolchain message e) fun _ _ => trivial

theorem changeFiles (message : Bytes) (change : FileSystem → Except PathError FileSystem) :
    FailsLate (Session.changeFiles message change) := by
  refine get.bind fun w => bind (.ofExcept ?_ fun _ _ => trivial) fun files => set _
  intro e _
  exact Diagnostic.isLate_toolchain message e.diagnostic

theorem makeParent (path : Bytes) : FailsLate (Session.makeParent path) := by
  refine get.bind fun w => (set _).bind fun _ => ?_
  split
  · exact .pure trivial
  · exact .throw (Diagnostic.isLate_toolchain _ _)

theorem save (path content : Bytes) : FailsLate (Session.save path content) :=
  (makeParent path).bind fun _ => changeFiles _ _

theorem verify (m : Ir.Module) : FailsLate (Session.ofExcept Ir.Fault.diagnostic m.verify) :=
  .ofExcept (fun _ _ => Diagnostic.isLate_verification _) fun _ _ => trivial

theorem emitObject (llc : Bytes) (m : Ir.Module) (triple object : Bytes) :
    FailsLate (emitObject llc m triple object) := by
  refine (verify m).bind fun _ => (look _).bind fun _ => (orToolchainError _ _).bind fun _ => ?_
  exact (note _).bind fun _ => (call _).bind fun _ => orToolchainError _ _

theorem runTool (tool : Bytes) (args : List Bytes) : FailsLate (Linker.runTool tool args) :=
  (call _).bind fun _ => orToolchainError _ _

theorem linkGnu (tools : LinkTools) (object executable : Bytes) :
    FailsLate (Linker.linkGnu tools object executable) := by
  refine (look _).bind fun found => ?_
  cases found with
  | ok path => exact (note _).bind fun _ => runTool _ _
  | error d =>
    have hlink : ∀ ld args text, FailsLate (Session.note text >>= fun _ => Linker.runTool ld args) :=
      fun ld args text => (note text).bind fun _ => runTool ld args
    dsimp only
    split
    · refine (look _).bind fun found => ?_
      cases found <;> exact hlink _ _ _
    · exact hlink _ _ _

theorem linkDarwin (tools : LinkTools) (arch object executable : Bytes) :
    FailsLate (Linker.linkDarwin tools arch object executable) := by
  refine (callForOutput _).bind fun _ => (orToolchainError _ _).bind fun _ => ?_
  exact (callForOutput _).bind fun _ => (orToolchainError _ _).bind fun _ => runTool _ _

/-- Linking fails late, whichever linker it is. -/
theorem link (linker : Linker) (object executable : Bytes) :
    FailsLate (linker.link object executable) := by
  cases linker with
  | gnu tools => exact linkGnu tools object executable
  | darwin tools arch => exact linkDarwin tools arch object executable
  | msvc tools => exact runTool _ _

end FailsLate

/-! ## Programs that were checked -/

theorem Expr.Spelled.knownOperators {e : Expr} (h : e.Spelled) : e.knownOperators = true := by
  induction h with
  | int n pos => rfl
  | var name pos => rfl
  | neg pos h ih => exact ih
  | bin pos hop hl hr ihl ihr => simp [Expr.knownOperators, hop, ihl, ihr]

theorem Stmt.Spelled.knownOperators {s : Stmt} (h : s.Spelled) : s.knownOperators = true := by
  cases h with
  | bind name line he =>
    cases he with
    | str text pos => rfl
    | expr he => exact he.knownOperators
  | print name line => rfl

namespace RunState

variable {r : RunState} {stmt : Stmt}

/-- The same state with a sink that takes every write. -/
def unlimited (r : RunState) : RunState :=
  { r with out := { r.out with limit := none } }

theorem assign_unlimited (r : RunState) (name : Bytes) (e : Expr) :
    r.unlimited.assign name e = (r.assign name e).map unlimited := by
  unfold assign unlimited
  cases r.values.evaluateValue e with
  | error fault => rfl
  | ok v =>
    simp only [bind, Except.bind]
    cases r.values.allow Value.kind name v.kind <;> rfl

/-- A statement that the sink does not refuse runs the same without a limit. -/
theorem exec_unlimited (h : r.exec stmt ≠ .error .refused) :
    r.unlimited.exec stmt = (r.exec stmt).map unlimited := by
  cases stmt with
  | bind name e line =>
    rw [exec, exec, assign_unlimited]
    cases r.assign name e <;> rfl
  | foreign typeName line => rfl
  | print name line =>
    cases hfind : r.values.find? name with
    | none =>
      have hsubject : r.values.subject name = .error (.undefined name) := by
        simp [Scope.subject, hfind]
      simp [exec, unlimited, hsubject, Except.map]
    | some v =>
      rw [exec_print hfind] at h
      rw [exec_print hfind, exec_print (r := r.unlimited) hfind, Sink.write?_of_limit rfl]
      by_cases haccepts : r.out.accepts v.line = true
      · simp [Sink.write?, haccepts, unlimited, Except.map]
      · simp [Sink.write?, haccepts] at h

/-- A limit adds refusals and no other fault. -/
theorem walk_unlimited {p : Program} {index i : Nat} {line : Int} {fault : SemanticFault}
    (h : (walk exec index r p).2 = some ⟨i, line, .semantic fault⟩) :
    (walk exec index r.unlimited p).2 = some ⟨i, line, .semantic fault⟩ := by
  induction p generalizing r index with
  | nil => cases h
  | cons stmt p ih =>
    cases hexec : r.exec stmt with
    | ok r' =>
      have hexec' := exec_unlimited (by rw [hexec]; nofun)
      rw [hexec] at hexec'
      rw [walk_cons_ok hexec] at h
      rw [walk_cons_ok hexec']
      exact ih h
    | error f =>
      rw [walk_cons_error hexec] at h
      cases h
      have hexec' := exec_unlimited (by rw [hexec]; nofun)
      rw [hexec] at hexec'
      rw [walk_cons_error hexec']

end RunState

/-- What the backends need of a program: code can be generated for it, and a run of it stops early
only where the sink refuses a write. -/
structure Program.Checked (p : Program) : Prop where
  chunk : ∃ c, p.chunk = .ok c
  lower : ∀ triple, ∃ m, p.lower triple = .ok m
  run : ∀ out halt, (p.run out).2 = some halt → halt.fault = .refused

/-- The checker is sound: a program that was read and checked breaks no rule of any backend. -/
theorem Program.checked_of_analyse {source : Bytes} {p : Program} (h : analyse source = .ok p) :
    p.Checked := by
  obtain ⟨hparse, kinds, hkinds⟩ := analyse_eq_ok_iff.1 h
  have hp : ∀ s ∈ p, s.knownOperators = true :=
    fun s hs => (Program.spelled_of_parse hparse s hs).knownOperators
  have hfault : ∀ order, p.fault? order noKinds 0 = none := by
    have hnone := failure?_kinds hp
    rw [hkinds] at hnone
    rcases fault?_orders p noKinds with ⟨-, hgood⟩ | ⟨index, bad, -, hbad⟩
    · exact hgood
    · obtain ⟨fault, hfault⟩ := hbad .valueFirst
      rw [hfault] at hnone
      cases hnone
  refine ⟨?_, ?_, ?_⟩
  · exact eq_ok_of_failure? (by rw [failure?_chunk hp, hfault])
  · intro triple
    exact eq_ok_of_failure? (by rw [failure?_lower hp, hfault])
  · intro out halt hrun
    obtain ⟨index, line, fault⟩ := halt
    cases fault with
    | refused => rfl
    | semantic fault =>
      have hnone : (p.run { out with limit := none }).2 = none := by
        rw [run_fault hp rfl, hfault]
        rfl
      have hsome := hnone.symm.trans (RunState.walk_unlimited hrun)
      cases hsome

/-! ## Backends -/

/-- The failure of a build that leaves something behind is late as well. -/
def BuiltLate (built : Built) : Prop :=
  ∀ d, built.failure = some d → d.IsLate

theorem MachineStop.isLate_of_diagnostic? {stop : MachineStop} {d : Diagnostic}
    (h : stop.diagnostic? = some d) : d.IsLate := by
  cases stop with
  | finished => cases h
  | halted => cases h
  | refused =>
    cases h
    exact Diagnostic.isLate_toolchain _ _
  | faulted pc i fault =>
    cases h
    exact Diagnostic.isLate_verification _

namespace Backend

variable {p : Program}

theorem interpret_ensures (hp : p.Checked) :
    Ensures Diagnostic.IsLate BuiltLate (interpret p) := by
  refine ⟨fun w => ?_⟩
  rw [interpret_runIn]
  cases hstop : (p.run w.out).2 with
  | none => exact .inl ⟨{}, _, rfl, nofun⟩
  | some halt =>
    have hfault := hp.run w.out halt hstop
    have hdiagnostic : runDiagnostic halt = Sink.refusal := by simp [runDiagnostic, hfault]
    refine .inr ⟨runDiagnostic halt, _, rfl, ?_⟩
    rw [hdiagnostic]
    exact Diagnostic.isLate_toolchain _ _

theorem executeProgram_ensures (hp : p.Checked) :
    Ensures Diagnostic.IsLate BuiltLate (executeProgram p) := by
  refine ⟨fun w => ?_⟩
  obtain ⟨c, hc⟩ := hp.chunk
  rw [executeProgram_runIn hc]
  cases hstop : (c.execute w.out).2.diagnostic? with
  | none => exact .inl ⟨{}, _, rfl, nofun⟩
  | some d => exact .inr ⟨d, _, rfl, MachineStop.isLate_of_diagnostic? hstop⟩

theorem generateModule_failsLate (hp : p.Checked) (triple : Bytes) :
    FailsLate (generateModule p triple) := by
  obtain ⟨m, hm⟩ := hp.lower triple
  refine (FailsLate.note _).bind fun _ => .ofExcept ?_ fun _ _ => trivial
  intro e he
  rw [hm] at he
  cases he

theorem writeModule_ensures (hp : p.Checked) (triple output : Bytes) :
    Ensures Diagnostic.IsLate BuiltLate (writeModule p triple output) := by
  refine (generateModule_failsLate hp triple).bind fun m => (FailsLate.verify m).bind fun _ => ?_
  exact (FailsLate.save _ _).bind fun _ => (FailsLate.note _).bind fun _ => .pure nofun

theorem linkObject_ensures (linker : Linker) (object output : Bytes) :
    Ensures Diagnostic.IsLate (fun failure => ∀ d, failure = some d → d.IsLate)
      (linkObject linker object output) := by
  refine .tryCatch ((FailsLate.link linker object output).bind fun _ => .pure nofun) ?_
  intro d hd
  refine .pure ?_
  rintro _ ⟨⟩
  exact hd

theorem buildExecutable_ensures (hp : p.Checked) (triple llc : Bytes) (linker : Linker)
    (output : Bytes) :
    Ensures Diagnostic.IsLate BuiltLate (buildExecutable p triple llc linker output) := by
  refine (generateModule_failsLate hp triple).bind fun m => ?_
  refine (FailsLate.makeParent _).bind fun _ => ?_
  refine (FailsLate.emitObject llc m triple _).bind fun _ => ?_
  refine (FailsLate.note _).bind fun _ => (linkObject_ensures linker _ output).bind ?_
  intro failure hfailure
  cases failure with
  | some d =>
    refine .pure ?_
    rintro _ ⟨⟩
    exact hfailure d rfl
  | none => exact (FailsLate.changeFiles _ _).bind fun _ => .pure nofun

/-- No backend finds fault with the text or the kinds of a program that was read and checked. -/
theorem compile_ensures (hp : p.Checked) (backend : Backend) (output : Bytes) :
    Ensures Diagnostic.IsLate BuiltLate (backend.compile p output) := by
  cases backend with
  | interp => exact interpret_ensures hp
  | vm => exact executeProgram_ensures hp
  | ir triple => exact writeModule_ensures hp triple output
  | native triple llc linker => exact buildExecutable_ensures hp triple llc linker output

end Backend

/-! ## The pipeline -/

/-- A source text that cannot be read or breaks the rules is rejected with the same diagnostic by
every backend, before anything is printed, called or written.  Where a source text is read and
checked, no backend finds fault with its text or its kinds, whatever the sink, the tools and the files
do. -/
theorem compileSource_fails_fast (showing : Showing) (source output : Bytes) (w : World) :
    (∀ d, analyse source = .error d →
      (d.category = .parse ∨ d.category = .semantic) ∧
        ∃ trace shown, ∀ backend,
          (compileSource backend showing source output).runIn w
            = (.error d, { w with trace, shown })) ∧
      ∀ p, analyse source = .ok p → ∀ backend d,
        (((compileSource backend showing source output).runIn w).1 = .error d ∨
          ∃ built, ((compileSource backend showing source output).runIn w).1 = .ok built ∧
            built.failure = some d) →
        d.category ≠ .parse ∧ d.category ≠ .semantic := by
  obtain ⟨trace, shown, hfront⟩ := Shows.front showing source w
  refine ⟨?_, ?_⟩
  · intro d hd
    rw [hd] at hfront
    refine ⟨category_of_analyse hd, trace, shown, ?_⟩
    intro backend
    rw [compileSource_eq, runIn_bind_error hfront]
  · intro p hp backend d hfailed
    rw [hp] at hfront
    rw [compileSource_eq, runIn_bind_ok hfront] at hfailed
    have hcompile := Backend.compile_ensures (Program.checked_of_analyse hp) backend output
    rcases hfailed with herror | ⟨built, hok, hfailure⟩
    · exact hcompile.error herror
    · exact hcompile.ok hok d hfailure

/-- A name that is printed without being bound. -/
def unboundSource : Bytes := utf8 "let s=\"\";\nprint x;"

/-- A name that is bound and printed. -/
def boundSource : Bytes := utf8 "let s=\"\";\nprint s;"

/-- Every backend rejects the first text on its second line.  The second text is read and checked, so
no backend finds fault with its kinds, not even where nothing can be printed. -/
theorem compileSource_fails_fast_on_unbound :
    (∃ d, analyse unboundSource = .error d ∧ d.line = 2 ∧
        ∀ backend, ((compileSource backend {} unboundSource []).runIn {}).1 = .error d) ∧
      ∃ p, analyse boundSource = .ok p ∧ ∀ backend d,
        ((compileSource backend {} boundSource []).runIn { out := { limit := some 0 } }).1 = .error d →
        d.category ≠ .semantic := by
  refine ⟨⟨SemanticFault.diagnostic (.undefined (utf8 "x")) 2, ?_⟩, ?_⟩
  · have hunbound : analyse unboundSource =
        .error (SemanticFault.diagnostic (.undefined (utf8 "x")) 2) := rfl
    obtain ⟨-, trace, shown, hrun⟩ :=
      (compileSource_fails_fast {} unboundSource [] {}).1 _ hunbound
    refine ⟨hunbound, rfl, ?_⟩
    intro backend
    rw [hrun]
  · have hbound : analyse boundSource =
        .ok [.bind (utf8 "s") (.str [] ⟨1, 7, 0⟩) 1, .print (utf8 "s") 2] := rfl
    refine ⟨_, hbound, ?_⟩
    intro backend d hd
    exact ((compileSource_fails_fast {} boundSource [] _).2 _ hbound backend d (.inl hd)).2

end LetPrint
