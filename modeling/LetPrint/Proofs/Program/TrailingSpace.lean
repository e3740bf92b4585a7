import LetPrint.Proofs.Program.Lines
import LetPrint.Proofs.Text.Splitting

/-!
# White space at the end of lines

White space that is added at the end of any lines of a source changes nothing in what is read, neither
the program nor the error (`Program.parse_padLines`).  A line ending of carriage return and newline is
a case of it.

A line is read through its trimmed text and through the column where that text is first found
(`readLine`).  Trimming drops what was added, and the search stops before it is reached
(`readLine_append`).
-/

namespace LetPrint

open Text

/-! ## One line -/

/-- White space behind a line is not seen. -/
theorem readLine_append {pad : Bytes} (h : Blanks pad) (number : Nat) (raw : Bytes) :
    readLine number (raw ++ pad) = readLine number raw := by
  have htrim : trim (raw ++ pad) = trim raw := by
    unfold trim
    rw [trimEnd_append h]
  have hindex : indexOf? (trim raw) (raw ++ pad) = indexOf? (trim raw) raw := by
    obtain ⟨i, hi⟩ := exists_indexOf?_trim raw
    rw [hi, indexOf?_append_right hi]
  unfold readLine
  simp only [htrim, hindex]

/-! ## All lines -/

/-- White space that can be added to a line: it does not end the line. -/
structure Padding where
  bytes : Bytes
  blanks : Blanks bytes
  inLine : newline ∉ bytes

/-- The second line is the first with white space at its end. -/
def Padded (line line' : Bytes) : Prop :=
  ∃ pad : Padding, line' = line ++ pad.bytes

theorem padded_self (line : Bytes) : Padded line line :=
  ⟨⟨[], blanks_nil, List.not_mem_nil⟩, (List.append_nil line).symm⟩

theorem Padded.inLine {line line' : Bytes} (h : Padded line line') (hline : newline ∉ line) :
    newline ∉ line' := by
  obtain ⟨pad, rfl⟩ := h
  rw [List.mem_append]
  exact not_or.2 ⟨hline, pad.inLine⟩

theorem readLines_padded {lines lines' : List Bytes} (h : List.Forall₂ Padded lines lines')
    (number : Nat) : readLines number lines' = readLines number lines := by
  induction h generalizing number with
  | nil => rfl
  | cons hline hlines ih =>
    obtain ⟨pad, rfl⟩ := hline
    rw [readLines, readLines, readLine_append pad.blanks, ih]

/-- The text with the white space `pads k` at the end of its line `k`, counted from 0. -/
def padLines (pads : Nat → Padding) (source : Bytes) : Bytes :=
  joinWith [newline] ((splitOn newline source).mapIdx fun k line => line ++ (pads k).bytes)

theorem padded_mapIdx (pads : Nat → Padding) (lines : List Bytes) :
    List.Forall₂ Padded lines (lines.mapIdx fun k line => line ++ (pads k).bytes) := by
  induction lines generalizing pads with
  | nil => exact .nil
  | cons line lines ih =>
    rw [List.mapIdx_cons]
    exact .cons ⟨pads 0, rfl⟩ (ih fun k => pads (k + 1))

/-- The lines of a padded text are the padded lines. -/
theorem splitOn_padLines (pads : Nat → Padding) (source : Bytes) :
    List.Forall₂ Padded (splitOn newline source) (splitOn newline (padLines pads source)) := by
  have hpadded := padded_mapIdx pads (splitOn newline source)
  have hne : (splitOn newline source).mapIdx (fun k line => line ++ (pads k).bytes) ≠ [] := by
    have hlength := length_splitOn newline source
    intro hnil
    rw [List.mapIdx_eq_nil_iff.1 hnil] at hlength
    simp at hlength
  have hlines : ∀ line ∈ (splitOn newline source).mapIdx fun k line => line ++ (pads k).bytes,
      newline ∉ line := by
    intro line hmem
    obtain ⟨k, hk, rfl⟩ := List.mem_mapIdx.1 hmem
    exact Padded.inLine ⟨pads k, rfl⟩ (not_mem_of_mem_splitOn (List.getElem_mem hk))
  rw [padLines, splitOn_joinWith hne hlines]
  exact hpadded

/-- The text with a carriage return before each newline. -/
def withCarriageReturns (source : Bytes) : Bytes :=
  source.flatMap fun b => if b == newline then utf8 "\r\n" else [b]

/-- A carriage return. -/
def carriageReturn : Padding where
  bytes := utf8 "\r"
  blanks := ⟨[utf8 "\r"], by simp only [List.mem_singleton, forall_eq]; rfl, rfl⟩
  inLine := by decide

theorem splitOn_withCarriageReturns (source : Bytes) :
    List.Forall₂ Padded (splitOn newline source)
      (splitOn newline (withCarriageReturns source)) := by
  induction source with
  | nil => exact .cons (padded_self []) .nil
  | cons b source ih =>
    by_cases hb : b = newline
    · subst hb
      have hends : withCarriageReturns (newline :: source) =
          utf8 "\r" ++ newline :: withCarriageReturns source := rfl
      have hreturn : splitOn newline (utf8 "\r") = [utf8 "\r"] := splitOn_of_not_mem (by decide)
      rw [hends, splitOn_append_sep, hreturn, splitOn_cons_self]
      exact .cons ⟨carriageReturn, rfl⟩ ih
    · have hgoes : withCarriageReturns (b :: source) = b :: withCarriageReturns source := by
        have hbeq : ¬(b == newline) = true := by simpa using hb
        unfold withCarriageReturns
        rw [List.flatMap_cons, if_neg hbeq, List.singleton_append]
      obtain ⟨line, lines, hsplit, hcons⟩ := splitOn_cons_of_ne hb source
      obtain ⟨line', lines', hsplit', hcons'⟩ :=
        splitOn_cons_of_ne hb (withCarriageReturns source)
      rw [hsplit, hsplit'] at ih
      rw [hgoes, hcons, hcons']
      cases ih with
      | cons hline hlines =>
        obtain ⟨pad, rfl⟩ := hline
        exact .cons ⟨pad, rfl⟩ hlines

/-- White space at the end of lines does not matter: a source whose lines are given any white space at
their ends, or whose newlines are given a carriage return, is read to the same statements at the same
places, or is refused with the same error. -/
theorem Program.parse_padLines (source : Bytes) (pads : Nat → Padding) :
    Program.parse (padLines pads source) = Program.parse source ∧
      Program.parse (withCarriageReturns source) = Program.parse source :=
  ⟨readLines_padded (splitOn_padLines pads source) 1,
    readLines_padded (splitOn_withCarriageReturns source) 1⟩

end LetPrint
