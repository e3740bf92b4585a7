import LetPrint.Text.Blank
import LetPrint.Token

/-!
# Byte classes by number

Each class of bytes as a condition on the number of the byte, so that `omega` decides which classes
exclude each other; and words of one class at the front of a text.
-/

namespace LetPrint.Text

/-! ## Classes -/

section

variable {b : UInt8}

theorem isDigit_iff : isDigit b = true ↔ 48 ≤ b.toNat ∧ b.toNat ≤ 57 := by
  simp [isDigit, byte, UInt8.le_iff_toNat_le]

theorem isWordStart_iff :
    isWordStart b = true ↔
      b.toNat = 95 ∨ 97 ≤ b.toNat ∧ b.toNat ≤ 122 ∨ 65 ≤ b.toNat ∧ b.toNat ≤ 90 := by
  simp [isWordStart, byte, UInt8.le_iff_toNat_le, ← UInt8.toNat_inj, or_assoc]

theorem isWordByte_iff : isWordByte b = true ↔ isWordStart b = true ∨ isDigit b = true := by
  simp [isWordByte]

theorem isBlankInLine_iff :
    isBlankInLine b = true ↔ b.toNat = 32 ∨ b.toNat = 9 ∨ b.toNat = 13 ∨ b.toNat = 12 := by
  simp [isBlankInLine, byte, ← UInt8.toNat_inj, or_assoc]

theorem isBlankInExpr_iff : isBlankInExpr b = true ↔ isBlankInLine b = true ∨ b.toNat = 10 := by
  have hnewline : byte '\n' = 10 := rfl
  simp only [isBlankInExpr, isBlankInLine, Bool.or_eq_true, beq_iff_eq, hnewline,
    ← UInt8.toNat_inj, UInt8.reduceToNat]
  omega

theorem isBlank1_iff :
    isBlank1 b = true ↔ 9 ≤ b.toNat ∧ b.toNat ≤ 13 ∨ b.toNat = 32 := by
  simp [isBlank1, UInt8.le_iff_toNat_le, ← UInt8.toNat_inj]

/-- The bytes that are tokens of their own: `(`, `)`, `*`, `+`, `-` and `/`. -/
theorem toNat_of_ofByte? {kind : TokenKind} (h : TokenKind.ofByte? b = some kind) :
    40 ≤ b.toNat ∧ b.toNat ≤ 43 ∨ b.toNat = 45 ∨ b.toNat = 47 := by
  have hchar : b.toNat = (Char.ofUInt8 b).toNat := rfl
  unfold TokenKind.ofByte? at h
  split at h
  case h_7 => cases h
  all_goals
    rename_i hc
    rw [hchar, hc]
    decide

end

/-! ## Words at the front of a text -/

/-- A run of bytes that satisfy `p` cannot go on into `rest`. -/
def EndsRun (p : UInt8 → Bool) (rest : Bytes) : Prop :=
  ∀ b ∈ rest.head?, p b = false

section

variable {p : UInt8 → Bool} {run rest : Bytes}

theorem takeWhile_run (hrun : ∀ b ∈ run, p b = true) (hend : EndsRun p rest) :
    (run ++ rest).takeWhile p = run := by
  rw [List.takeWhile_append_of_pos hrun]
  cases rest with
  | nil => simp
  | cons b rest =>
    have hb : ¬p b = true := by simp [hend b rfl]
    rw [List.takeWhile_cons_of_neg hb, List.append_nil]

theorem dropWhile_run (hrun : ∀ b ∈ run, p b = true) (hend : EndsRun p rest) :
    (run ++ rest).dropWhile p = rest := by
  rw [List.dropWhile_append_of_pos hrun]
  cases rest with
  | nil => rfl
  | cons b rest =>
    have hb : ¬p b = true := by simp [hend b rfl]
    rw [List.dropWhile_cons_of_neg hb]

theorem endsRun_nil (p : UInt8 → Bool) : EndsRun p [] :=
  nofun

theorem endsRun_cons {b : UInt8} (hb : p b = false) (rest : Bytes) : EndsRun p (b :: rest) := by
  rintro _ ⟨⟩
  exact hb

theorem EndsRun.append (h : EndsRun p run) (hrest : EndsRun p rest) : EndsRun p (run ++ rest) := by
  cases run with
  | nil => exact hrest
  | cons b run => exact h

/-- Where no word goes on, no number does. -/
theorem EndsRun.digits (h : EndsRun isWordByte rest) : EndsRun isDigit rest := by
  intro b hb
  have hword := h b hb
  rw [Bool.eq_false_iff, Ne, isWordByte_iff] at hword
  exact Bool.eq_false_iff.2 fun hdigit => hword (.inr hdigit)

theorem endsRun_dropWhile (p : UInt8 → Bool) (text : Bytes) : EndsRun p (text.dropWhile p) := by
  intro b hb
  have hhead := List.head?_dropWhile_not p text
  rw [hb] at hhead
  exact hhead

end

/-- A name: a letter or an underscore, then letters, digits and underscores. -/
def isName : Bytes → Bool
  | [] => false
  | b :: rest => isWordStart b && rest.all isWordByte

theorem exists_cons_of_isName {name : Bytes} (h : isName name = true) :
    ∃ b rest, name = b :: rest ∧ isWordStart b = true := by
  cases name with
  | nil => cases h
  | cons b rest => exact ⟨b, rest, rfl, (Bool.and_eq_true_iff.1 h).1⟩

theorem isWordByte_of_isName {name : Bytes} (h : isName name = true) :
    ∀ b ∈ name, isWordByte b = true := by
  cases name with
  | nil => nofun
  | cons b rest =>
    simp only [isName, Bool.and_eq_true, List.all_eq_true] at h
    intro c hc
    rcases List.mem_cons.1 hc with rfl | hc
    · exact isWordByte_iff.2 (.inl h.1)
    · exact h.2 c hc

theorem isName_takeWhile {b : UInt8} (h : isWordStart b = true) (rest : Bytes) :
    isName ((b :: rest).takeWhile isWordByte) = true := by
  have hb : isWordByte b = true := isWordByte_iff.2 (.inl h)
  rw [List.takeWhile_cons_of_pos hb, isName, h, Bool.true_and]
  exact List.all_takeWhile

end LetPrint.Text
