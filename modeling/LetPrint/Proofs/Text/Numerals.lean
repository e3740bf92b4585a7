import LetPrint.Text.Bytes

/-!
# Numerals

A numeral of decimal digits denotes the number that it was made from (`decimalValue_decimal`), so
different numbers have different numerals, and a name with a number behind a point tells the number
(`number_eq_of_name_eq`), as does a padded numeral at the front of a text (`zeroPadded_append_inj`).
The two hexadecimal digits of a byte tell the byte (`hexByte_injective`).
-/

namespace LetPrint.Text

/-- The byte of a digit is the code of the digit. -/
theorem toNat_byte_of_isDigit {c : Char} (h : c.isDigit = true) :
    (byte c).toNat = c.toNat := by
  simp only [Char.isDigit, Bool.and_eq_true, decide_eq_true_eq] at h
  have hle : c.toNat ≤ 57 := UInt32.le_iff_toNat_le.1 h.2
  simp only [byte, UInt8.toNat_ofNat']
  omega

theorem isDigit_of_mem_decimal {n : Nat} {b : UInt8} (h : b ∈ decimal n) : isDigit b = true := by
  obtain ⟨c, hc, rfl⟩ := List.mem_map.1 h
  have hdigit := Nat.isDigit_of_mem_toDigits (by omega) (by omega) hc
  have hbyte := toNat_byte_of_isDigit hdigit
  simp only [Char.isDigit, Bool.and_eq_true, decide_eq_true_eq] at hdigit
  have hge : 48 ≤ c.toNat := UInt32.le_iff_toNat_le.1 hdigit.1
  have hle : c.toNat ≤ 57 := UInt32.le_iff_toNat_le.1 hdigit.2
  simp only [isDigit, Bool.and_eq_true, decide_eq_true_eq, UInt8.le_iff_toNat_le, hbyte]
  exact ⟨hge, hle⟩

/-- Bytes of digits denote the number that the digits denote. -/
theorem decimalValue_map_byte {cs : List Char} (h : ∀ c ∈ cs, c.isDigit = true) :
    decimalValue (cs.map byte) = Nat.ofDigitChars 10 cs 0 := by
  unfold decimalValue Nat.ofDigitChars
  generalize 0 = start
  induction cs generalizing start with
  | nil => rfl
  | cons c cs ih =>
    have hc : (byte c).toNat = c.toNat := toNat_byte_of_isDigit (h c List.mem_cons_self)
    rw [List.map_cons, List.foldl_cons, List.foldl_cons, hc]
    exact ih (fun d hd => h d (List.mem_cons_of_mem c hd)) _

/-- A numeral denotes the number that it was made from. -/
theorem decimalValue_decimal (n : Nat) : decimalValue (decimal n) = n := by
  rw [decimal, decimalValue_map_byte, Nat.ofDigitChars_ten_toDigits]
  intro c hc
  exact Nat.isDigit_of_mem_toDigits (by omega) (by omega) hc

theorem decimal_injective {n k : Nat} (h : decimal n = decimal k) : n = k := by
  rw [← decimalValue_decimal n, h, decimalValue_decimal]

/-- What stands behind the last occurrence of a byte is determined by the whole text. -/
theorem append_cons_inj_right {b : UInt8} {before before' after after' : Bytes} (h : b ∉ after)
    (h' : b ∉ after') (heq : before ++ b :: after = before' ++ b :: after') : after = after' := by
  rcases List.append_eq_append_iff.1 heq with ⟨between, -, hafter⟩ | ⟨between, -, hafter⟩
  · cases between with
    | nil => exact (List.cons.inj hafter).2
    | cons c between =>
      have hmem : b ∈ after := by
        rw [(List.cons.inj hafter).2]
        simp
      exact absurd hmem h
  · cases between with
    | nil => exact (List.cons.inj hafter).2.symm
    | cons c between =>
      have hmem : b ∈ after' := by
        rw [(List.cons.inj hafter).2]
        simp
      exact absurd hmem h'

/-- A name with a number behind a point tells the number. -/
theorem number_eq_of_name_eq {name name' : Bytes} {n k : Nat}
    (h : name ++ utf8 "." ++ decimal n = name' ++ utf8 "." ++ decimal k) : n = k := by
  have hpoint : ∀ n, byte '.' ∉ decimal n := by
    intro n hmem
    exact absurd (isDigit_of_mem_decimal hmem) (by decide)
  rw [List.append_assoc, List.append_assoc] at h
  exact decimal_injective (append_cons_inj_right (hpoint n) (hpoint k) h)

theorem decimalValue_zeroPadded (width n : Nat) : decimalValue (zeroPadded width n) = n := by
  have hzeros : ∀ k digits, decimalValue (List.replicate k (byte '0') ++ digits) =
      decimalValue digits := by
    intro k digits
    induction k with
    | zero => rfl
    | succ k ih => exact ih
  rw [zeroPadded, hzeros, decimalValue_decimal]

theorem isDigit_of_mem_zeroPadded {width n : Nat} {b : UInt8} (h : b ∈ zeroPadded width n) :
    isDigit b = true := by
  rcases List.mem_append.1 h with h | h
  · rw [List.eq_of_mem_replicate h]
    rfl
  · exact isDigit_of_mem_decimal h

/-- A padded numeral that something else than a digit follows tells the number. -/
theorem zeroPadded_append_inj {width n k : Nat} {b : UInt8} (hb : isDigit b = false)
    {rest rest' : Bytes} (h : zeroPadded width n ++ b :: rest = zeroPadded width k ++ b :: rest') :
    n = k := by
  have hdigits : ∀ (n : Nat) (rest : Bytes),
      (zeroPadded width n ++ b :: rest).takeWhile isDigit = zeroPadded width n := by
    intro n rest
    rw [List.takeWhile_append_of_pos fun _ => isDigit_of_mem_zeroPadded,
      List.takeWhile_cons_of_neg (by simp [hb]), List.append_nil]
  have hsame : zeroPadded width n = zeroPadded width k := by
    rw [← hdigits n rest, h, hdigits k rest']
  rw [← decimalValue_zeroPadded width n, hsame, decimalValue_zeroPadded]

/-! ## Hexadecimal digits -/

/-- The number that a run of uppercase hexadecimal digits denotes. -/
def hexValue (digits : Bytes) : Nat :=
  digits.foldl (fun n d => 16 * n + (d.toNat - if isDigit d then 48 else 55)) 0

/-- A byte is written with two digits, which denote it. -/
theorem hexByte_spec (b : UInt8) : (hexByte b).length = 2 ∧ hexValue (hexByte b) = b.toNat := by
  have hall : (List.range 256).all (fun k =>
      (hexByte (UInt8.ofNat k)).length == 2 && hexValue (hexByte (UInt8.ofNat k)) == k) = true := by
    decide +kernel
  have hb := List.all_eq_true.1 hall b.toNat (List.mem_range.2 b.toNat_lt)
  simpa only [UInt8.ofNat_toNat, Bool.and_eq_true, beq_iff_eq] using hb

theorem hexByte_injective {b c : UInt8} (h : hexByte b = hexByte c) : b = c := by
  rw [← UInt8.toNat_inj, ← (hexByte_spec b).2, h, (hexByte_spec c).2]

end LetPrint.Text
