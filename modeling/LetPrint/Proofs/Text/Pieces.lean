import LetPrint.Text.Utf8

/-!
# Nothing is lost by splitting a text into pieces

A character is decoded only where its encoding stands (`utf8EncodeChar_of_firstChar?`), so the pieces of
a text put together are the text (`flatMap_bytes_pieces`), and a text without stray bytes is the encoding
of its characters (`encodeChars_chars`).  In ASCII every byte is a character (`pieces_of_ascii`).
-/

namespace LetPrint.Text

/-! ## Decoding one character -/

theorem toNat_ofNat_of_valid {n : Nat} (h : n.isValidChar) : (Char.ofNat n).val.toNat = n := by
  rw [Char.ofNat, dif_pos h]
  rfl

theorem ofNat_of_eq_toNat {n : Nat} {b : UInt8} (h : n = b.toNat) : UInt8.ofNat n = b := by
  rw [h, UInt8.ofNat_toNat]

theorem isContinuation_iff {b : UInt8} :
    isContinuation b = true ↔ 0x80 ≤ b.toNat ∧ b.toNat ≤ 0xBF := by
  simp [isContinuation, UInt8.le_iff_toNat_le]

theorem utf8EncodeChar_ofUInt8 {b : UInt8} (h : b.toNat < 128) :
    String.utf8EncodeChar (Char.ofUInt8 b) = [b] := by
  have hnumber : (Char.ofUInt8 b).val.toNat = b.toNat := rfl
  rw [String.utf8EncodeChar.eq_1, hnumber, if_pos (by omega), UInt8.ofNat_toNat]

theorem utf8EncodeChar_of_decode2? {a b : UInt8} {char : Char} (h : decode2? a b = some char) :
    String.utf8EncodeChar char = [a, b] := by
  simp only [decode2?, payload, Option.ite_none_right_eq_some, Bool.and_eq_true, decide_eq_true_eq,
    UInt8.le_iff_toNat_le, UInt8.reduceToNat, isContinuation_iff, Option.some.injEq] at h
  obtain ⟨⟨⟨ha, ha'⟩, hb, hb'⟩, rfl⟩ := h
  rw [String.utf8EncodeChar.eq_1, toNat_ofNat_of_valid (.inl (by omega)), if_neg (by omega),
    if_pos (by omega), ofNat_of_eq_toNat (b := a) (by omega), ofNat_of_eq_toNat (b := b) (by omega)]

-- What is not overlong has a number above those of the shorter forms, and no surrogate is decoded, so
-- the number is that of a character.

theorem utf8EncodeChar_of_decode3? {a b c : UInt8} {char : Char} (h : decode3? a b c = some char) :
    String.utf8EncodeChar char = [a, b, c] := by
  simp only [decode3?, payload, Option.ite_none_right_eq_some, Bool.and_eq_true, Bool.or_eq_true,
    bne_iff_ne, ne_eq, ← UInt8.toNat_inj, decide_eq_true_eq, UInt8.le_iff_toNat_le,
    UInt8.reduceToNat, isContinuation_iff, Option.some.injEq] at h
  obtain ⟨⟨⟨⟨⟨⟨ha, ha'⟩, hb, hb'⟩, hc, hc'⟩, hlong⟩, hsurrogate⟩, rfl⟩ := h
  have hvalid : Nat.isValidChar ((a.toNat % 16 * 64 + b.toNat % 64) * 64 + c.toNat % 64) := by
    unfold Nat.isValidChar
    omega
  rw [String.utf8EncodeChar.eq_1, toNat_ofNat_of_valid hvalid, if_neg (by omega), if_neg (by omega),
    if_pos (by omega), ofNat_of_eq_toNat (b := a) (by omega), ofNat_of_eq_toNat (b := b) (by omega),
    ofNat_of_eq_toNat (b := c) (by omega)]

theorem utf8EncodeChar_of_decode4? {a b c d : UInt8} {char : Char}
    (h : decode4? a b c d = some char) : String.utf8EncodeChar char = [a, b, c, d] := by
  simp only [decode4?, payload, Option.ite_none_right_eq_some, Bool.and_eq_true, Bool.or_eq_true,
    bne_iff_ne, ne_eq, ← UInt8.toNat_inj, decide_eq_true_eq, UInt8.le_iff_toNat_le,
    UInt8.reduceToNat, isContinuation_iff, Option.some.injEq] at h
  obtain ⟨⟨⟨⟨⟨⟨⟨ha, ha'⟩, hb, hb'⟩, hc, hc'⟩, hd, hd'⟩, hlong⟩, hlast⟩, rfl⟩ := h
  have hvalid : Nat.isValidChar
      (((a.toNat % 8 * 64 + b.toNat % 64) * 64 + c.toNat % 64) * 64 + d.toNat % 64) := by
    unfold Nat.isValidChar
    omega
  rw [String.utf8EncodeChar.eq_1, toNat_ofNat_of_valid hvalid, if_neg (by omega), if_neg (by omega),
    if_neg (by omega), ofNat_of_eq_toNat (b := a) (by omega), ofNat_of_eq_toNat (b := b) (by omega),
    ofNat_of_eq_toNat (b := c) (by omega), ofNat_of_eq_toNat (b := d) (by omega)]

/-! ## Splitting a text -/

/-- A character is in front exactly with its encoding. -/
theorem utf8EncodeChar_of_firstChar? {text : Bytes} {char : Char} {more : Nat}
    (h : firstChar? text = some (char, more)) :
    String.utf8EncodeChar char = text.take (more + 1) := by
  have hascii : ∀ {a : UInt8} {rest : Bytes}, a < 0x80 →
      String.utf8EncodeChar (Char.ofUInt8 a) = (a :: rest).take 1 :=
    fun ha => utf8EncodeChar_ofUInt8 (UInt8.lt_iff_toNat_lt.1 ha)
  rcases text with _ | ⟨a, _ | ⟨b, _ | ⟨c, _ | ⟨d, rest⟩⟩⟩⟩
  · cases h
  all_goals
    rw [firstChar?] at h
    split at h
    · rename_i ha
      cases h
      exact hascii ha
  · cases h
  · obtain ⟨_, hdecode, heq⟩ := Option.map_eq_some_iff.1 h
    cases heq
    exact utf8EncodeChar_of_decode2? hdecode
  all_goals
    simp only [Option.or_eq_some_iff, Option.map_eq_some_iff, Prod.mk.injEq] at h
  · obtain ⟨_, hdecode, rfl, rfl⟩ | ⟨-, _, hdecode, rfl, rfl⟩ := h
    · exact utf8EncodeChar_of_decode2? hdecode
    · exact utf8EncodeChar_of_decode3? hdecode
  · obtain ⟨_, hdecode, rfl, rfl⟩ | ⟨-, ⟨_, hdecode, rfl, rfl⟩ | ⟨-, _, hdecode, rfl, rfl⟩⟩ := h
    · exact utf8EncodeChar_of_decode2? hdecode
    · exact utf8EncodeChar_of_decode3? hdecode
    · exact utf8EncodeChar_of_decode4? hdecode

theorem flatMap_bytes_piecesAfter (skip : Nat) (text : Bytes) :
    (piecesAfter skip text).flatMap Piece.bytes = text.drop skip := by
  induction text generalizing skip with
  | nil => rw [piecesAfter, List.drop_nil]; rfl
  | cons a text ih =>
    cases skip with
    | succ skip => rw [piecesAfter, ih, List.drop_succ_cons]
    | zero =>
      rw [piecesAfter]
      cases hfirst : firstChar? (a :: text) with
      | none =>
        dsimp only
        rw [List.flatMap_cons, ih]
        rfl
      | some found =>
        obtain ⟨char, more⟩ := found
        dsimp only
        rw [List.flatMap_cons, ih, Piece.bytes, utf8EncodeChar_of_firstChar? hfirst, List.take_succ_cons,
          List.cons_append, List.take_append_drop]
        rfl

/-- The pieces of a text put together are the text. -/
theorem flatMap_bytes_pieces (text : Bytes) : (pieces text).flatMap Piece.bytes = text :=
  flatMap_bytes_piecesAfter 0 text

/-- A well-formed text is the encoding of its characters. -/
theorem encodeChars_chars {text : Bytes} (h : isUtf8 text = true) : encodeChars (chars text) = text := by
  have hpieces : (pieces text).flatMap Piece.bytes = encodeChars (chars text) := by
    rw [encodeChars, chars, List.flatMap_map, List.flatMap_def, List.flatMap_def]
    refine congrArg List.flatten (List.map_congr_left fun piece hpiece => ?_)
    cases piece with
    | char c => rfl
    | stray b => cases List.all_eq_true.1 h _ hpiece
  rw [← hpieces, flatMap_bytes_pieces]

/-- Bytes of ASCII are one character each. -/
theorem pieces_of_ascii {text : Bytes} (h : ∀ b ∈ text, b.toNat < 128) :
    pieces text = text.map fun b => .char (Char.ofUInt8 b) := by
  rw [pieces]
  induction text with
  | nil => rfl
  | cons b text ih =>
    have hb : b < 0x80 := UInt8.lt_iff_toNat_lt.2 (h b List.mem_cons_self)
    have hfirst : firstChar? (b :: text) = some (Char.ofUInt8 b, 0) := by
      rcases text with _ | ⟨c, _ | ⟨d, _ | ⟨e, text⟩⟩⟩ <;> simp only [firstChar?, hb, if_true]
    rw [piecesAfter, hfirst, List.map_cons]
    exact congrArg _ (ih fun c hc => h c (List.mem_cons_of_mem b hc))

end LetPrint.Text
