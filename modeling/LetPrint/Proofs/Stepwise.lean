import LetPrint.Proofs.Backend
import LetPrint.Proofs.Passes

/-!
# Sessions with their trace points in place

The sessions of the program put a whole stage on the trace at once: what was read, what a pass did with
each statement, how a chunk ran.  Here are the same stages with a note wherever something happens, so
that the trace grows as the work proceeds, and stops growing where the work stops.

* `readStepwise` reads a program line by line.  The tokens of a value are read a second time for the
  trace, and only if one is kept.
* `throughStepwise` takes the statements of a program one after the other, each with a note before it.
  The interpreter (`interpretStepwise`) and the two generators (`generateChunkStepwise`,
  `generateModuleStepwise`) are this with different steps; `runIn_throughStepwise` compares it with
  `walk` for all three.
* `executeStepwise` runs a chunk instruction by instruction, behind a listing that is made only if a trace
  is kept.

Each has the same result as its stage, in every world, and leaves the same world, the trace included
(`readProgram_eq_readStepwise`, `interpret_eq_interpretStepwise` and so on).
-/

namespace LetPrint

open Text

namespace Session

/-- Do something only if a trace is kept. -/
def whenTracing (s : Session Unit) : Session Unit := do
  if (← get).tracing then s

/-- What only adds to the trace may as well be done always. -/
theorem runIn_whenTracing {s : Session Unit} {text : Bytes}
    (h : ∀ w, s.runIn w = (.ok (), w.noted text)) (w : World) :
    (whenTracing s).runIn w = (.ok (), w.noted text) := by
  rw [whenTracing, runIn_bind_ok runIn_get]
  cases htracing : w.tracing with
  | false =>
    rw [World.noted_of_untraced htracing]
    rfl
  | true => exact h w

/-! ## Reading -/

/-- Read the tokens of a right-hand side once more, for the trace alone.  Where that fails nothing is
traced; the failure is left to the reading itself. -/
def noteTokens (raw : Bytes) : Session Unit :=
  whenTracing <|
    match LineShape.of (trim raw) with
    | .binding _ body _ =>
      if isLiteral (trim body) then return ()
      else
        match tokenize (trim body) with
        | .ok tokens => note (Token.table tokens)
        | .error _ => return ()
    | _ => return ()

/-- Read a line: the tokens are traced before its value is read, the statement behind it. -/
def readLineStepwise (number : Nat) (raw : Bytes) : Session (Option Stmt) := do
  noteTokens raw
  let statement ← ofExcept ParseError.diagnostic (readLine number raw)
  match statement with
  | none => return none
  | some s =>
    note (utf8 "  linha " ++ decimal number ++ utf8 ": " ++ s.render ++ utf8 "\n")
    return some s

/-- Read lines one after the other. -/
def readLinesStepwise : Nat → List Bytes → Session Program
  | _, [] => return []
  | number, raw :: lines => do
    let statement ← readLineStepwise number raw
    let statements ← readLinesStepwise (number + 1) lines
    return statement.toList ++ statements

/-- Read a program line by line. -/
def readStepwise (source : Bytes) : Session Program :=
  readLinesStepwise 1 (splitOn newline source)

/-- The second reading of the tokens leaves its table in the trace and no other sign. -/
theorem runIn_noteTokens (raw : Bytes) (w : World) :
    (noteTokens raw).runIn w = (.ok (), w.noted (valueTrace raw)) := by
  refine runIn_whenTracing (fun w => ?_) w
  rw [valueTrace]
  cases LineShape.of (trim raw) with
  | binding name body start =>
    dsimp only
    cases isLiteral (trim body) with
    | true =>
      rw [if_pos rfl, if_pos rfl, World.noted_nil]
      rfl
    | false =>
      rw [if_neg Bool.false_ne_true, if_neg Bool.false_ne_true]
      cases tokenize (trim body) with
      | ok tokens => rfl
      | error e =>
        rw [World.noted_nil]
        rfl
  | _ =>
    rw [World.noted_nil]
    rfl

/-- A line is read, or fails, as without a trace; what is traced is the table, and the statement if there
is one. -/
theorem runIn_readLineStepwise (number : Nat) (raw : Bytes) (w : World) :
    (readLineStepwise number raw).runIn w =
      ((readLine number raw).mapError ParseError.diagnostic,
        w.noted (valueTrace raw ++
          match readLine number raw with
          | .ok (some s) => utf8 "  linha " ++ decimal number ++ utf8 ": " ++ s.render ++ utf8 "\n"
          | _ => [])) := by
  rw [readLineStepwise, runIn_bind_ok (runIn_noteTokens raw w)]
  cases readLine number raw with
  | error e =>
    rw [List.append_nil]
    rfl
  | ok statement =>
    cases statement with
    | none =>
      rw [List.append_nil]
      rfl
    | some s =>
      rw [← World.noted_noted]
      rfl

theorem runIn_readLinesStepwise (number : Nat) (lines : List Bytes) (w : World) :
    (readLinesStepwise number lines).runIn w =
      ((readLines number lines).mapError ParseError.diagnostic,
        w.noted (linesTrace number lines)) := by
  induction lines generalizing number w with
  | nil =>
    rw [linesTrace, World.noted_nil]
    rfl
  | cons raw lines ih =>
    have hline := runIn_readLineStepwise number raw w
    rw [readLinesStepwise, readLines, linesTrace]
    cases hread : readLine number raw with
    | error e =>
      rw [hread] at hline
      rw [runIn_bind_error hline]
      rfl
    | ok statement =>
      rw [hread] at hline
      rw [runIn_bind_ok hline, runIn_bind, ih, World.noted_noted, List.append_assoc]
      cases statement <;> cases readLines (number + 1) lines <;> rfl

/-- This is how a program is read. -/
theorem readProgram_eq_readStepwise (source : Bytes) (w : World) :
    (readProgram source).runIn w = (readStepwise source).runIn w := by
  rw [readProgram, runIn_bind_ok (runIn_note _), runIn_ofExcept, readStepwise,
    runIn_readLinesStepwise]
  rfl

end Session

/-! ## Going through the statements of a program -/

namespace Session

/-- Take the statements of a program one after the other, each with a note before it. -/
def throughStepwise {τ : Type} (announcement : Nat → Stmt → Bytes)
    (handle : τ → Stmt → Session τ) : Nat → τ → Program → Session τ
  | _, t, [] => return t
  | index, t, stmt :: rest => do
    note (announcement index stmt)
    let t ← handle t stmt
    throughStepwise announcement handle (index + 1) t rest

end Session

section

open Session

variable {σ τ φ : Type}

/-- The notes on the statements that a pass began, when it started at the statement `index`. -/
def announcements (announcement : Nat → Stmt → Bytes) (index : Nat) (p : Program)
    (stop : Option (Halt φ)) : Bytes :=
  ((p.take (stop.elim p.length fun h => h.index - index + 1)).zipIdx index).flatMap
    fun (stmt, i) => announcement i stmt

theorem announcements_zero (announcement : Nat → Stmt → Bytes) (p : Program)
    (stop : Option (Halt φ)) :
    announcements announcement 0 p stop =
      (begun p stop).zipIdx.flatMap fun (stmt, i) => announcement i stmt := by
  rw [announcements, begun]
  cases stop with
  | none => rw [Option.elim_none, Option.elim_none, List.take_length]
  | some h => rfl

theorem le_index_of_walk {step : σ → Stmt → Except φ σ} {index : Nat} {s s' : σ} {p : Program}
    {h : Halt φ} (hwalk : walk step index s p = (s', some h)) : index ≤ h.index := by
  induction p generalizing index s with
  | nil => cases hwalk
  | cons stmt p ih =>
    cases hstep : step s stmt with
    | ok t =>
      rw [walk_cons_ok hstep] at hwalk
      exact Nat.le_of_succ_le (ih hwalk)
    | error fault =>
      rw [walk_cons_error hstep] at hwalk
      cases hwalk
      exact Nat.le_refl _

/-- The statement where a pass stops is the last that is announced. -/
theorem announcements_halt (announcement : Nat → Stmt → Bytes) (index : Nat) (stmt : Stmt)
    (p : Program) (line : Int) (fault : φ) :
    announcements announcement index (stmt :: p) (some ⟨index, line, fault⟩) =
      announcement index stmt := by
  rw [announcements, Option.elim_some, Nat.sub_self]
  exact List.append_nil _

/-- A statement that a pass gets through is followed by those behind it. -/
theorem announcements_cons {step : σ → Stmt → Except φ σ} {index : Nat} {s s' : σ} {stmt : Stmt}
    {p : Program} {stop : Option (Halt φ)} (hwalk : walk step (index + 1) s p = (s', stop))
    (announcement : Nat → Stmt → Bytes) :
    announcements announcement index (stmt :: p) stop =
      announcement index stmt ++ announcements announcement (index + 1) p stop := by
  unfold announcements
  cases stop with
  | none => rfl
  | some h =>
    have hindex := le_index_of_walk hwalk
    have hcount : h.index - index + 1 = h.index - (index + 1) + 1 + 1 := by omega
    rw [Option.elim_some, hcount]
    rfl

/-- How the steps of a session are those of a pass: the state of the pass is what the session hands on
together with a part of the world.  `held` puts it together, `kept` is what is handed on, and `put` changes
the world. -/
structure Carries (step : σ → Stmt → Except φ σ) (handle : τ → Stmt → Session τ)
    (diagnostic : Halt φ → Diagnostic) (held : τ → World → σ) (kept : σ → τ)
    (put : σ → World → World) : Prop where
  ok : ∀ t stmt w s, step (held t w) stmt = .ok s →
    (handle t stmt).runIn w = (.ok (kept s), put s w)
  error : ∀ t stmt w index fault, step (held t w) stmt = .error fault →
    (handle t stmt).runIn w = (.error (diagnostic ⟨index, stmt.line, fault⟩), w)
  kept_held : ∀ t w, kept (held t w) = t
  put_held : ∀ t w, put (held t w) w = w
  held_put : ∀ s w, held (kept s) (put s w) = s
  put_put : ∀ s s' w, put s' (put s w) = put s' w
  put_noted : ∀ s w text, put s (w.noted text) = (put s w).noted text
  held_noted : ∀ t w text, held t (w.noted text) = held t w

/-- Then the session ends as the pass does, with a note on each statement that the pass began. -/
theorem runIn_throughStepwise {step : σ → Stmt → Except φ σ} {handle : τ → Stmt → Session τ}
    {diagnostic : Halt φ → Diagnostic} {held : τ → World → σ} {kept : σ → τ}
    {put : σ → World → World} (h : Carries step handle diagnostic held kept put)
    (announcement : Nat → Stmt → Bytes) (index : Nat) (t : τ) (p : Program) (w : World) :
    (throughStepwise announcement handle index t p).runIn w =
      let (s, stop) := walk step index (held t w) p
      (stop.elim (.ok (kept s)) fun halt => .error (diagnostic halt),
        (put s w).noted (announcements announcement index p stop)) := by
  induction p generalizing index t w with
  | nil =>
    show (Except.ok t, w) = (.ok (kept (held t w)), (put (held t w) w).noted [])
    rw [h.kept_held, h.put_held, World.noted_nil]
  | cons stmt p ih =>
    have hheld : held t (w.noted (announcement index stmt)) = held t w := h.held_noted _ _ _
    rw [throughStepwise, runIn_bind_ok (runIn_note _)]
    cases hstep : step (held t w) stmt with
    | error fault =>
      have hhandle := h.error t stmt (w.noted (announcement index stmt)) index fault
        (by rw [hheld]; exact hstep)
      rw [runIn_bind_error hhandle, walk_cons_error hstep]
      dsimp only
      rw [Option.elim_some, announcements_halt, h.put_held]
    | ok s =>
      have hhandle := h.ok t stmt (w.noted (announcement index stmt)) s (by rw [hheld]; exact hstep)
      rw [runIn_bind_ok hhandle, ih, walk_cons_ok hstep, h.held_put]
      rcases hwalk : walk step (index + 1) s p with ⟨s', stop⟩
      dsimp only
      rw [announcements_cons hwalk, h.put_put, h.put_noted, World.noted_noted]

end

/-! ## The interpreter -/

namespace Backend

open Session

/-- The note before a statement is executed. -/
def runAnnouncement (index : Nat) (stmt : Stmt) : Bytes :=
  utf8 "--- Statement " ++ decimal (index + 1) ++ utf8 " (linha " ++ integer stmt.line
    ++ utf8 ") ---\n"

/-- Execute a statement; the output is that of the world. -/
def executeStmt (values : Values) (stmt : Stmt) : Session Values := do
  let out := (← get).out
  let s ← ofExcept (fun fault => runDiagnostic ⟨0, stmt.line, fault⟩)
    (RunState.exec { values, out } stmt)
  modify fun w => { w with out := s.out }
  return s.values

/-- Run a program statement by statement. -/
def interpretStepwise (p : Program) : Session Built := do
  note (utf8 "Interpretando diretamente da AST...\n")
  let _ ← throughStepwise runAnnouncement executeStmt 0 .empty p
  return {}

theorem executeStmt_carries :
    Carries RunState.exec executeStmt runDiagnostic (fun values w => { values, out := w.out })
      RunState.values (fun s w => { w with out := s.out }) where
  ok values stmt w s h := by
    have hexec : RunState.exec { values, out := w.out } stmt = .ok s := h
    rw [executeStmt, runIn_bind_ok runIn_get]
    dsimp only
    rw [hexec]
    rfl
  error values stmt w index fault h := by
    have hexec : RunState.exec { values, out := w.out } stmt = .error fault := h
    rw [executeStmt, runIn_bind_ok runIn_get]
    dsimp only
    rw [hexec]
    rfl
  kept_held _ _ := rfl
  put_held _ _ := rfl
  held_put _ _ := rfl
  put_put _ _ _ := rfl
  put_noted s w text := World.setOut_noted w text s.out
  held_noted values w text := by rw [World.noted_out]

/-- The trace of a run: what is noted at its start and before each statement. -/
theorem runTrace_eq (p : Program) (stop : Option (Halt RunFault)) :
    p.runTrace stop =
      utf8 "Interpretando diretamente da AST...\n" ++ announcements runAnnouncement 0 p stop := by
  rw [announcements_zero]
  rfl

/-- A program is run statement by statement. -/
theorem interpret_eq_interpretStepwise (p : Program) (w : World) :
    (interpret p).runIn w = (interpretStepwise p).runIn w := by
  rw [interpret_runIn, interpretStepwise, runIn_bind_ok (runIn_note _), runIn_bind,
    runIn_throughStepwise executeStmt_carries, runTrace_eq, ← World.noted_noted,
    World.noted_out, Program.run]
  rcases walk RunState.exec 0 { values := .empty, out := w.out } p with ⟨s, stop⟩
  dsimp only
  rw [World.setOut_noted]
  cases stop <;> rfl

/-! ## The generators -/

/-- Add the code of a statement, by the steps of a generator. -/
def generateStmt {σ : Type} (step : σ → Stmt → Except SemanticFault σ) (s : σ) (stmt : Stmt) :
    Session σ :=
  ofExcept (·.diagnostic stmt.line) (step s stmt)

theorem generateStmt_carries {σ : Type} (step : σ → Stmt → Except SemanticFault σ) :
    Carries step (generateStmt step) SemanticError.diagnostic (fun s _ => s) id (fun _ w => w) where
  ok s stmt w s' h := by
    rw [generateStmt, h]
    rfl
  error s stmt w index fault h := by
    rw [generateStmt, h]
    rfl
  kept_held _ _ := rfl
  put_held _ _ := rfl
  held_put _ _ := rfl
  put_put _ _ _ := rfl
  put_noted _ _ _ := rfl
  held_noted _ _ _ := rfl

/-- The note before a statement becomes bytecode. -/
def chunkAnnouncement (index : Nat) (_ : Stmt) : Bytes :=
  utf8 "  Processando statement " ++ decimal (index + 1) ++ utf8 "...\n"

/-- Make bytecode statement by statement. -/
def generateChunkStepwise (p : Program) : Session Chunk := do
  note (utf8 "Compilando para Bytecode...\n")
  let s ← throughStepwise chunkAnnouncement (generateStmt CodeState.stmt) 0 {} p
  return { s.chunk with code := s.chunk.code ++ [⟨.halt, 0, 0⟩] }

theorem chunkTrace_eq (p : Program) :
    p.chunkTrace = utf8 "Compilando para Bytecode...\n" ++
      announcements chunkAnnouncement 0 p (walk CodeState.stmt 0 {} p).2 := by
  rw [announcements_zero]
  rfl

/-- Bytecode is made statement by statement. -/
theorem generateChunk_eq_generateChunkStepwise (p : Program) (w : World) :
    (generateChunk p).runIn w = (generateChunkStepwise p).runIn w := by
  rw [generateChunk_runIn, generateChunkStepwise, runIn_bind_ok (runIn_note _), runIn_bind,
    runIn_throughStepwise (generateStmt_carries _), chunkTrace_eq, ← World.noted_noted,
    Program.chunk]
  rcases walk CodeState.stmt 0 {} p with ⟨s, stop⟩
  cases stop <;> rfl

/-- The note before a statement is lowered. -/
def lowerAnnouncement (index : Nat) (stmt : Stmt) : Bytes :=
  utf8 "  Processando statement " ++ decimal (index + 1) ++ utf8 " (linha " ++ integer stmt.line
    ++ utf8 ")...\n"

/-- Make a module statement by statement. -/
def generateModuleStepwise (p : Program) (triple : Bytes) : Session Ir.Module := do
  note (utf8 "Gerando LLVM IR para " ++ triple ++ utf8 "...\n")
  let s ← throughStepwise lowerAnnouncement (generateStmt Ir.LowerState.stmt) 0 .initial p
  return s.finish triple

theorem lowerTrace_eq (p : Program) (triple : Bytes) :
    p.lowerTrace triple = utf8 "Gerando LLVM IR para " ++ triple ++ utf8 "...\n" ++
      announcements lowerAnnouncement 0 p (walk Ir.LowerState.stmt 0 .initial p).2 := by
  rw [announcements_zero]
  rfl

/-- A module is made statement by statement. -/
theorem generateModule_eq_generateModuleStepwise (p : Program) (triple : Bytes) (w : World) :
    (generateModule p triple).runIn w = (generateModuleStepwise p triple).runIn w := by
  rw [generateModule_runIn, generateModuleStepwise, runIn_bind_ok (runIn_note _), runIn_bind,
    runIn_throughStepwise (generateStmt_carries _), lowerTrace_eq, ← World.noted_noted,
    Program.lower]
  rcases walk Ir.LowerState.stmt 0 .initial p with ⟨s, stop⟩
  cases stop <;> rfl

/-! ## The stack machine -/

/-- The line of a listing for an instruction. -/
def listingLine (pc : Nat) (i : Instruction) : Bytes :=
  utf8 "  " ++ zeroPadded 3 pc ++ utf8 ": " ++ i.render ++ utf8 "\n"

/-- List the instructions of a chunk, line by line. -/
def listStepwise : Nat → List Instruction → Session Unit
  | _, [] => note (utf8 "\n")
  | pc, i :: rest => do
    note (listingLine pc i)
    listStepwise (pc + 1) rest

/-- The end of a run: a `halt` is noted, and a bad end is a failure. -/
def endRun (stop : MachineStop) : Session Unit := do
  note (if stop = .halted then utf8 "Execução concluída!\n" else [])
  match stop.diagnostic? with
  | none => return ()
  | some d => throw d

/-- Run instructions one after the other; the output is that of the world. -/
def runStepwise (strings : List Bytes) : Nat → Machine → List Instruction → Session Unit
  | _, _, [] => endRun .finished
  | pc, m, i :: rest =>
    if i.opcode = .halt then endRun .halted
    else do
      let out := (← get).out
      match { m with out }.step strings i with
      | .ok m' =>
        modify fun w => { w with out := m'.out }
        runStepwise strings (pc + 1) m' rest
      | .error (.fault f) => endRun (.faulted pc i f)
      | .error .refused => endRun .refused

/-- Run a chunk instruction by instruction, behind a listing of it. -/
def executeStepwise (c : Chunk) : Session Unit := do
  note (utf8 "Bytecode gerado (" ++ decimal c.code.length ++ utf8 " instruções):\n")
  whenTracing (listStepwise 0 c.code)
  let out := (← get).out
  runStepwise c.strings 0 { slots := List.replicate c.slots 0, out } c.code

theorem runIn_listStepwise (pc : Nat) (code : List Instruction) (w : World) :
    (listStepwise pc code).runIn w = (.ok (), w.noted
      ((code.zipIdx pc).flatMap (fun (i, pc) => listingLine pc i) ++ utf8 "\n")) := by
  induction code generalizing pc w with
  | nil => rfl
  | cons i code ih =>
    rw [listStepwise, runIn_bind_ok (runIn_note _), ih, World.noted_noted, List.zipIdx_cons,
      List.flatMap_cons, List.append_assoc]

theorem runIn_endRun (stop : MachineStop) (w : World) :
    (endRun stop).runIn w = (stop.diagnostic?.elim (.ok ()) .error,
      w.noted (if stop = .halted then utf8 "Execução concluída!\n" else [])) := by
  rw [endRun, runIn_bind_ok (runIn_note _)]
  cases stop.diagnostic? <;> rfl

theorem runIn_runStepwise (strings : List Bytes) (pc : Nat) (m : Machine)
    (code : List Instruction) (w : World) :
    (runStepwise strings pc m code).runIn w =
      let (m', stop) := Machine.run strings pc { m with out := w.out } code
      (stop.diagnostic?.elim (.ok ()) .error, { w with out := m'.out }.noted
        (if stop = MachineStop.halted then utf8 "Execução concluída!\n" else [])) := by
  induction code generalizing pc m w with
  | nil => exact runIn_endRun .finished w
  | cons i code ih =>
    rw [runStepwise, Machine.run]
    split
    next => exact runIn_endRun .halted w
    next =>
      rw [runIn_bind_ok runIn_get]
      dsimp only
      cases Machine.step strings { m with out := w.out } i with
      | ok m' => exact ih (pc + 1) m' { w with out := m'.out }
      | error e =>
        cases e with
        | fault f => exact runIn_endRun (.faulted pc i f) w
        | refused => exact runIn_endRun .refused w

/-- A chunk is run instruction by instruction. -/
theorem executeChunk_eq_executeStepwise (c : Chunk) (w : World) :
    (executeChunk c).runIn w = (executeStepwise c).runIn w := by
  have hlisting := runIn_whenTracing (runIn_listStepwise 0 c.code)
  rw [executeChunk_runIn, executeStepwise, runIn_bind_ok (runIn_note _),
    runIn_bind_ok (hlisting _), runIn_bind_ok runIn_get, runIn_runStepwise, World.noted_noted,
    World.noted_out, Chunk.execute, Chunk.executeTrace]
  rcases Machine.run c.strings 0 { slots := List.replicate c.slots 0, out := w.out } c.code with
    ⟨m, stop⟩
  dsimp only
  rw [World.setOut_noted, World.noted_noted, List.append_assoc (utf8 _ ++ _ ++ _)]
  rfl

end Backend

end LetPrint
