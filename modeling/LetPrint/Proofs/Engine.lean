import LetPrint.Proofs.Bytecode.Simulation
import LetPrint.Proofs.FailFast

/-!
# Running a program directly

Two backends run a program and write no file, the interpreter and the virtual machine (`Engine`).
Without a trace, what they do with a source file is one equation: the file is read, what is asked for is
shown, and the program is run if it is accepted (`Engine.compileFile_runIn`).  Both run an accepted program
alike (`Engine.run_agrees`).
-/

namespace LetPrint

open Text Session

/-! ## What is shown -/

/-- What is shown of a source text. -/
def Showing.text (showing : Showing) (source : Bytes) : Bytes :=
  match Program.parse source with
  | .error _ => []
  | .ok p =>
    (if showing.tree then p.drawn else [])
      ++ (if showing.outline then Outline.program p ++ utf8 "\n" else [])

theorem Showing.text_nothing (source : Bytes) : ({} : Showing).text source = [] := by
  rw [Showing.text]
  cases Program.parse source <;> rfl

theorem displayIf_runIn (wanted : Bool) (text : Bytes) (w : World) :
    (displayIf wanted text).runIn w =
      (.ok (), { w with shown := w.shown ++ (if wanted then text else []) }) := by
  cases wanted with
  | false =>
    simp only [Bool.false_eq_true, if_false, List.append_nil]
    rfl
  | true => rfl

/-- Without a trace, reading and checking only show the program. -/
theorem front_runIn {w : World} (h : w.tracing = false) (showing : Showing) (source : Bytes) :
    (front showing source).runIn w =
      (analyse source, { w with shown := w.shown ++ showing.text source }) := by
  have hnote : ∀ text, (note text).runIn w = (.ok (), w) := by
    intro text
    rw [runIn_note, World.noted_of_untraced h]
  have hread : (readProgram source).runIn w =
      ((Program.parse source).mapError ParseError.diagnostic, w) := by
    rw [readProgram, runIn_bind_ok (hnote _), runIn_ofExcept]
  rw [front, runIn_bind_ok (hnote _)]
  cases hparse : Program.parse source with
  | error e =>
    have hanalyse : analyse source = .error e.diagnostic := by simp only [analyse, hparse]
    have htext : showing.text source = [] := by simp only [Showing.text, hparse]
    rw [hparse] at hread
    rw [runIn_bind_error hread, hanalyse, htext, List.append_nil]
  | ok p =>
    have htext : showing.text source = (if showing.tree then p.drawn else [])
        ++ (if showing.outline then Outline.program p ++ utf8 "\n" else []) := by
      simp only [Showing.text, hparse]
    rw [hparse] at hread
    rw [runIn_bind_ok hread, runIn_bind_ok (hnote _), runIn_bind_ok (displayIf_runIn _ _ _),
      runIn_bind_ok (displayIf_runIn _ _ _), List.append_assoc, ← htext]
    have hcheck : ∀ w' : World, (ofExcept SemanticError.diagnostic p.kinds).runIn w' =
        (p.kinds.mapError SemanticError.diagnostic, w') := fun _ => runIn_ofExcept _ _
    cases hkinds : p.kinds with
    | error e =>
      have hanalyse : analyse source = .error e.diagnostic := by simp only [analyse, hparse, hkinds]
      rw [hkinds] at hcheck
      rw [runIn_bind_error (hcheck _), hanalyse]
    | ok kinds =>
      have hanalyse : analyse source = .ok p := by simp only [analyse, hparse, hkinds]
      rw [hkinds] at hcheck
      rw [runIn_bind_ok (hcheck _), runIn_bind_ok (runIn_note _), hanalyse]
      have hnoted :=
        World.noted_of_untraced (w := { w with shown := w.shown ++ showing.text source }) h
      exact Prod.ext rfl (hnoted _)

/-! ## Running a program directly -/

/-- The two ways to run a program without writing a file. -/
inductive Engine where
  | interp
  | vm
  deriving DecidableEq, Repr

namespace Engine

/-- The backend of an engine. -/
def backend : Engine → Backend
  | interp => .interp
  | vm => .vm

/-- The result of a program, and the sink behind its output. -/
def run (e : Engine) (p : Program) (out : Sink) : Except Diagnostic Built × Sink :=
  match e with
  | interp =>
    ((p.run out).2.elim (.ok {}) fun halt => .error (runDiagnostic halt), (p.run out).1)
  | vm =>
    match p.chunk with
    | .error e => (.error e.diagnostic, out)
    | .ok c => ((c.execute out).2.diagnostic?.elim (.ok {}) .error, (c.execute out).1)

theorem run_fst (e : Engine) (p : Program) (out : Sink) :
    (e.run p out).1 = .ok {} ∨ ∃ d, (e.run p out).1 = .error d := by
  cases e with
  | interp =>
    rw [run]
    cases (p.run out).2 with
    | none => exact .inl rfl
    | some halt => exact .inr ⟨_, rfl⟩
  | vm =>
    rw [run]
    cases p.chunk with
    | error e => exact .inr ⟨_, rfl⟩
    | ok c =>
      dsimp only
      cases (c.execute out).2.diagnostic? with
      | none => exact .inl rfl
      | some d => exact .inr ⟨d, rfl⟩

/-- A program that has bytecode for not too many names is run alike by both. -/
theorem run_agrees {p : Program} (hp : p.Checked) (hlets : p.countP Stmt.isLet ≤ maxSlots)
    (out : Sink) : interp.run p out = vm.run p out := by
  obtain ⟨c, hc⟩ := hp.chunk
  rcases Program.chunk_runs_alike hc hlets out with
    ⟨out', hrun, hexecute⟩ | ⟨out', index, line, hrun, hexecute, -⟩
  · simp only [run, hc, hrun, hexecute]
    rfl
  · simp only [run, hc, hrun, hexecute]
    rfl

variable {w : World}

theorem compile_runIn (hw : w.tracing = false) (e : Engine) (p : Program) (output : Bytes) :
    (e.backend.compile p output).runIn w =
      ((e.run p w.out).1, { w with out := (e.run p w.out).2 }) := by
  cases e with
  | interp =>
    rw [backend, Backend.compile, Backend.interpret_runIn]
    exact Prod.ext rfl (World.noted_of_untraced (w := { w with out := (p.run w.out).1 }) hw _)
  | vm =>
    rw [backend, Backend.compile, run]
    cases hc : p.chunk with
    | ok c =>
      rw [Backend.executeProgram_runIn hc, World.noted_of_untraced hw]
      exact Prod.ext rfl (World.noted_of_untraced (w := { w with out := (c.execute w.out).1 }) hw _)
    | error err =>
      have hgenerate := Backend.generateChunk_runIn p w
      rw [hc, World.noted_of_untraced hw] at hgenerate
      exact runIn_bind_error hgenerate

/-- Without a trace, a file is read, shown and run, and nothing else happens. -/
theorem compileFile_runIn (hw : w.tracing = false) (e : Engine) (showing : Showing)
    (input output : Bytes) :
    (compileFile e.backend showing input output).runIn w =
      match w.files.readFile input with
      | .error err => (.error (usageBecause (utf8 "cannot read " ++ input) err), w)
      | .ok source =>
        match analyse source with
        | .error d => (.error d, { w with shown := w.shown ++ showing.text source })
        | .ok p =>
          ((e.run p w.out).1,
            { w with shown := w.shown ++ showing.text source, out := (e.run p w.out).2 }) := by
  have hsource : (readSource input).runIn w =
      ((w.files.readFile input).mapError (usageBecause (utf8 "cannot read " ++ input)), w) := by
    rw [readSource, runIn_bind_ok runIn_get, runIn_ofExcept]
  rw [compileFile]
  cases hread : w.files.readFile input with
  | error err =>
    rw [hread] at hsource
    exact runIn_bind_error hsource
  | ok source =>
    rw [hread] at hsource
    have hfront := front_runIn hw showing source
    rw [runIn_bind_ok hsource, runIn_bind_ok (runIn_note _), World.noted_of_untraced hw,
      compileSource_eq]
    dsimp only
    cases hanalyse : analyse source with
    | error d =>
      rw [hanalyse] at hfront
      exact runIn_bind_error hfront
    | ok p =>
      rw [hanalyse] at hfront
      rw [runIn_bind_ok hfront]
      exact compile_runIn (w := { w with shown := w.shown ++ showing.text source }) hw e p output

end Engine

end LetPrint
