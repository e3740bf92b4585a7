import LetPrint.Backend
import LetPrint.Proofs.Session

/-!
# What backends do in a world

The interpreter, the virtual machine and the generators as sessions, each as one equation on
`Session.runIn`: what is computed is given by a function without effects, and the world changes in the
output and the trace alone.
-/

namespace LetPrint.Backend

open Session

theorem interpret_runIn (p : Program) (w : World) :
    (interpret p).runIn w =
      ((p.run w.out).2.elim (.ok {}) fun halt => .error (runDiagnostic halt),
        { w with out := (p.run w.out).1 }.noted (p.runTrace (p.run w.out).2)) := by
  unfold interpret
  simp only [runIn_bind, runIn_get, runIn_set, runIn_note]
  cases (p.run w.out).2 <;> rfl

theorem generateChunk_runIn (p : Program) (w : World) :
    (generateChunk p).runIn w =
      (p.chunk.mapError SemanticError.diagnostic, w.noted p.chunkTrace) := by
  unfold generateChunk
  rw [runIn_bind_ok (runIn_note _), runIn_ofExcept]

theorem executeChunk_runIn (c : Chunk) (w : World) :
    (executeChunk c).runIn w =
      ((c.execute w.out).2.diagnostic?.elim (.ok ()) .error,
        { w with out := (c.execute w.out).1 }.noted (c.executeTrace (c.execute w.out).2)) := by
  unfold executeChunk
  simp only [runIn_bind, runIn_get, runIn_set, runIn_note]
  cases (c.execute w.out).2.diagnostic? <;> rfl

theorem generateModule_runIn (p : Program) (triple : Bytes) (w : World) :
    (generateModule p triple).runIn w =
      ((p.lower triple).mapError SemanticError.diagnostic, w.noted (p.lowerTrace triple)) := by
  rw [generateModule, runIn_bind_ok (runIn_note _), runIn_ofExcept]

/-- A program that has bytecode is run as that bytecode. -/
theorem executeProgram_runIn {p : Program} {c : Chunk} (hc : p.chunk = .ok c) (w : World) :
    (executeProgram p).runIn w =
      ((c.execute w.out).2.diagnostic?.elim (.ok {}) .error,
        { w.noted p.chunkTrace with out := (c.execute w.out).1 }.noted
          (c.executeTrace (c.execute w.out).2)) := by
  have hchunk : (generateChunk p).runIn w = (.ok c, w.noted p.chunkTrace) := by
    rw [generateChunk_runIn, hc]
    rfl
  have hexec := executeChunk_runIn c (w.noted p.chunkTrace)
  rw [World.noted_out] at hexec
  rw [executeProgram, runIn_bind_ok hchunk, runIn_bind, hexec]
  cases (c.execute w.out).2.diagnostic? <;> rfl

end LetPrint.Backend
