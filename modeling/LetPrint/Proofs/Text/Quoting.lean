import LetPrint.Proofs.Text.ByteClasses
import LetPrint.Proofs.Text.Pieces
import LetPrint.Text.Literal
import LetPrint.Text.Quoted

/-!
# Quoted text and string literals

Two ways to write a text between double quotes: `quote`, for readers, and `escape`, in the few escapes
of the language.  On plain text, visible ASCII characters with spaces, tabs and newlines, the two
agree (`quote_eq_escape`), so what is shown there is a literal of the language.

Reading back what `escape` wrote gives the text again, whatever its bytes (`unescape_escape`).
-/

namespace LetPrint.Text

/-- A visible ASCII character, a space, a tab or a newline. -/
def isPlain (b : UInt8) : Bool :=
  0x20 ≤ b && b ≤ 0x7E || b == newline || b == byte '\t'

theorem isPlain_iff {b : UInt8} :
    isPlain b = true ↔ 32 ≤ b.toNat ∧ b.toNat ≤ 126 ∨ b = newline ∨ b = byte '\t' := by
  simp [isPlain, UInt8.le_iff_toNat_le, or_assoc]

/-! ## Escapes -/

theorem escape_cons (b : UInt8) (text : Bytes) : escape (b :: text) = escape [b] ++ escape text := by
  simp [escape]

theorem eq_byte_of_ofUInt8 {b : UInt8} {c : Char} (h : Char.ofUInt8 b = c) : b = byte c := by
  have hnumber : b.toNat = c.toNat := by
    rw [← h]
    rfl
  rw [byte, ← hnumber, UInt8.ofNat_toNat]

/-- Four bytes have an escape; every other byte stands for itself. -/
theorem escape_cases (b : UInt8) :
    b = newline ∧ escape [b] = utf8 "\\n" ∨ b = byte '\t' ∧ escape [b] = utf8 "\\t" ∨
      b = byte '"' ∧ escape [b] = utf8 "\\\"" ∨ b = byte '\\' ∧ escape [b] = utf8 "\\\\" ∨
      (b ≠ newline ∧ b ≠ byte '\t' ∧ b ≠ byte '"' ∧ b ≠ byte '\\') ∧ escape [b] = [b] := by
  simp only [escape, List.flatMap_cons, List.flatMap_nil, List.append_nil]
  split
  · rename_i h
    exact .inl ⟨eq_byte_of_ofUInt8 h, rfl⟩
  · rename_i h
    exact .inr (.inl ⟨eq_byte_of_ofUInt8 h, rfl⟩)
  · rename_i h
    exact .inr (.inr (.inl ⟨eq_byte_of_ofUInt8 h, rfl⟩))
  · rename_i h
    exact .inr (.inr (.inr (.inl ⟨eq_byte_of_ofUInt8 h, rfl⟩)))
  · rename_i hn ht hq hb
    refine .inr (.inr (.inr (.inr ⟨⟨?_, ?_, ?_, ?_⟩, rfl⟩)))
    · rintro rfl
      exact hn rfl
    · rintro rfl
      exact ht rfl
    · rintro rfl
      exact hq rfl
    · rintro rfl
      exact hb rfl

/-- What is escaped is read back. -/
theorem unescape_escape (text : Bytes) : unescape (escape text) = .ok text := by
  induction text with
  | nil => rfl
  | cons b text ih =>
    rw [escape_cons]
    rcases escape_cases b with ⟨rfl, h⟩ | ⟨rfl, h⟩ | ⟨rfl, h⟩ | ⟨rfl, h⟩ | ⟨⟨-, -, -, hb⟩, h⟩
    case inr.inr.inr.inr =>
      have hbeq : (b == byte '\\') = false := beq_false_of_ne hb
      rw [h, List.singleton_append, unescape.eq_def]
      simp only [hbeq, Bool.false_eq_true, if_false, ih]
      rfl
    all_goals
      rw [h]
      show (unescape (escape text)).map _ = _
      rw [ih]
      rfl

theorem newline_not_mem_escape (text : Bytes) : newline ∉ escape text := by
  induction text with
  | nil => nofun
  | cons b text ih =>
    rw [escape_cons, List.mem_append, not_or]
    refine ⟨?_, ih⟩
    rcases escape_cases b with ⟨-, h⟩ | ⟨-, h⟩ | ⟨-, h⟩ | ⟨-, h⟩ | ⟨⟨hb, -⟩, h⟩
    case inr.inr.inr.inr =>
      rw [h, List.mem_singleton]
      exact fun heq => hb heq.symm
    all_goals
      rw [h]
      decide

/-! ## Quotes -/

theorem isPrintable_ofUInt8 {b : UInt8} (hge : 32 ≤ b.toNat) (hle : b.toNat ≤ 126) :
    isPrintable (Char.ofUInt8 b) = true := by
  have hnumber : (Char.ofUInt8 b).toNat = b.toNat := rfl
  have hlow : b.toNat < 0x2000 := by omega
  have hmem : (0x20, 0x7E) ∈ printableLow := List.mem_cons_self
  rw [isPrintable, hnumber, printableRanges, if_pos hlow]
  refine List.any_eq_true.2 ⟨_, hmem, ?_⟩
  rw [decide_eq_true hge, decide_eq_true hle]
  rfl

/-- A plain byte is quoted by its escape. -/
theorem quotedChar_of_isPlain {b : UInt8} (h : isPlain b = true) :
    quotedChar '"' (Char.ofUInt8 b) = escape [b] := by
  rcases escape_cases b with
    ⟨rfl, hb⟩ | ⟨rfl, hb⟩ | ⟨rfl, hb⟩ | ⟨rfl, hb⟩ | ⟨⟨hn, ht, hq, hs⟩, hb⟩
  case inr.inr.inr.inr =>
    obtain ⟨hge, hle⟩ : 32 ≤ b.toNat ∧ b.toNat ≤ 126 := by
      rcases isPlain_iff.1 h with hvisible | hnewline | htab
      · exact hvisible
      · exact absurd hnewline hn
      · exact absurd htab ht
    have hmark : ¬(Char.ofUInt8 b == '"' || Char.ofUInt8 b == '\\') = true := by
      rw [Bool.or_eq_true, beq_iff_eq, beq_iff_eq, not_or]
      exact ⟨fun heq => hq (eq_byte_of_ofUInt8 heq), fun heq => hs (eq_byte_of_ofUInt8 heq)⟩
    rw [quotedChar, if_neg hmark, if_pos (isPrintable_ofUInt8 hge hle),
      utf8EncodeChar_ofUInt8 (by omega), hb]
  all_goals
    rw [hb]
    decide +kernel

/-- On plain text, quotes use only the escapes of the language. -/
theorem quote_eq_escape {text : Bytes} (h : ∀ b ∈ text, isPlain b = true) :
    quote text = byte '"' :: (escape text ++ [byte '"']) := by
  have hascii : ∀ b ∈ text, b.toNat < 128 := by
    intro b hb
    rcases isPlain_iff.1 (h b hb) with hvisible | rfl | rfl
    · omega
    · decide
    · decide
  have hbody : (pieces text).flatMap (quotedPiece '"') = escape text := by
    rw [pieces_of_ascii hascii, List.flatMap_map]
    clear hascii
    induction text with
    | nil => rfl
    | cons b text ih =>
      rw [List.flatMap_cons, escape_cons, quotedPiece, quotedChar_of_isPlain (h b List.mem_cons_self),
        ih fun c hc => h c (List.mem_cons_of_mem b hc)]
  rw [quote, hbody, List.cons_append]

end LetPrint.Text
