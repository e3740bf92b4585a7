import LetPrint.Proofs.Text.ByteClasses
import LetPrint.Proofs.Text.Splitting

/-!
# Trimming

White-space characters are words of one to three bytes (`isBlankChar`), and white space is a sequence
of them (`Blanks`).  `trim` drops the white space at the two ends of a text and nothing else, and what
is left neither starts nor ends with a white-space character (`trim_spec`).

The two ends are treated alike: both functions drop words from the front as long as there are some
(`Peels`), the one from the text and the other from the text in reverse order.

A byte that is part of no white-space character is *solid*.  A text that starts and ends with solid
bytes is left as it is (`SolidEnds.trim_eq`).
-/

namespace LetPrint.Text

/-! ## White space -/

/-- A white-space character, where `blank2` and `blank3` tell those of two and of three bytes. -/
def isBlankBy (blank2 : UInt8 → UInt8 → Bool) (blank3 : UInt8 → UInt8 → UInt8 → Bool) :
    Bytes → Bool
  | [a] => isBlank1 a
  | [a, b] => blank2 a b
  | [a, b, c] => blank3 a b c
  | _ => false

/-- The encoding of one white-space character. -/
def isBlankChar : Bytes → Bool :=
  isBlankBy isBlank2 isBlank3

/-- A sequence of words that satisfy `P`. -/
def Words (P : Bytes → Prop) (text : Bytes) : Prop :=
  ∃ ws : List Bytes, (∀ w ∈ ws, P w) ∧ ws.flatten = text

/-- White space. -/
def Blanks (text : Bytes) : Prop :=
  Words (fun w => isBlankChar w = true) text

/-- A byte that is part of no white-space character: a visible ASCII character. -/
def isSolid (b : UInt8) : Bool :=
  b < 0x80 && !isBlank1 b

section

variable {a b c : UInt8}

theorem isSolid_iff :
    isSolid b = true ↔ b.toNat < 128 ∧ ¬(9 ≤ b.toNat ∧ b.toNat ≤ 13 ∨ b.toNat = 32) := by
  simp only [isSolid, Bool.and_eq_true, decide_eq_true_eq, Bool.not_eq_true', UInt8.lt_iff_toNat_lt,
    UInt8.reduceToNat, Bool.eq_false_iff, Ne, isBlank1_iff]

theorem isBlank2_iff :
    isBlank2 a b = true ↔ a.toNat = 0xC2 ∧ (b.toNat = 0x85 ∨ b.toNat = 0xA0) := by
  simp [isBlank2, ← UInt8.toNat_inj]

/-- The ranges of the bytes of a white-space character of three bytes. -/
theorem ranges_of_isBlank3 (h : isBlank3 a b c = true) :
    0xE1 ≤ a.toNat ∧ 0x80 ≤ b.toNat ∧ b.toNat ≤ 0x9A ∧ 0x80 ≤ c.toNat := by
  simp only [isBlank3, Bool.or_eq_true, Bool.and_eq_true, beq_iff_eq, decide_eq_true_eq,
    ← UInt8.toNat_inj, UInt8.le_iff_toNat_le, UInt8.reduceToNat] at h
  omega

end

/-- A white-space character has no solid byte. -/
theorem isSolid_of_mem_blankChar {w : Bytes} {b : UInt8} (hw : isBlankChar w = true)
    (hb : b ∈ w) : isSolid b = false := by
  rw [Bool.eq_false_iff, Ne, isSolid_iff]
  unfold isBlankChar isBlankBy at hw
  split at hw
  · rw [isBlank1_iff] at hw
    rw [List.mem_singleton] at hb
    subst hb
    omega
  · rw [isBlank2_iff] at hw
    simp only [List.mem_cons, List.not_mem_nil, or_false] at hb
    rcases hb with rfl | rfl <;> omega
  · have hranges := ranges_of_isBlank3 hw
    simp only [List.mem_cons, List.not_mem_nil, or_false] at hb
    rcases hb with rfl | rfl | rfl <;> omega
  · cases hw

theorem Words.reverse {P Q : Bytes → Prop} {text : Bytes} (hPQ : ∀ w, P w → Q w.reverse)
    (h : Words P text) : Words Q text.reverse := by
  obtain ⟨ws, hws, rfl⟩ := h
  refine ⟨(ws.map List.reverse).reverse, ?_, List.reverse_flatten.symm⟩
  intro w hw
  obtain ⟨v, hv, rfl⟩ := List.mem_map.1 (List.mem_reverse.1 hw)
  exact hPQ v (hws v hv)

theorem Blanks.not_isSolid {text : Bytes} (h : Blanks text) {b : UInt8} (hb : b ∈ text) :
    isSolid b = false := by
  obtain ⟨ws, hws, rfl⟩ := h
  obtain ⟨w, hw, hbw⟩ := List.mem_flatten.1 hb
  exact isSolid_of_mem_blankChar (hws w hw) hbw

theorem blanks_nil : Blanks [] :=
  ⟨[], nofun, rfl⟩

theorem Blanks.append {text text' : Bytes} (h : Blanks text) (h' : Blanks text') :
    Blanks (text ++ text') := by
  obtain ⟨ws, hws, rfl⟩ := h
  obtain ⟨ws', hws', rfl⟩ := h'
  refine ⟨ws ++ ws', ?_, List.flatten_append⟩
  intro w hw
  rcases List.mem_append.1 hw with hw | hw
  · exact hws w hw
  · exact hws' w hw

/-! ## Dropping words at the front -/

/-- The function drops words that satisfy `P` from the front, as long as there are some. -/
structure Peels (P : Bytes → Prop) (f : Bytes → Bytes) : Prop where
  ne_nil : ∀ w, P w → w ≠ []
  step : ∀ w text, P w → f (w ++ text) = f text
  stop : ∀ text, (∀ w, P w → ¬w <+: text) → f text = text

namespace Peels

variable {P : Bytes → Prop} {f : Bytes → Bytes}

theorem append (h : Peels P f) {run : Bytes} (hrun : Words P run) (text : Bytes) :
    f (run ++ text) = f text := by
  obtain ⟨ws, hws, rfl⟩ := hrun
  induction ws with
  | nil => rfl
  | cons w ws ih =>
    rw [List.flatten_cons, List.append_assoc, h.step w _ (hws w List.mem_cons_self)]
    exact ih fun v hv => hws v (List.mem_cons_of_mem w hv)

/-- What is dropped is a sequence of words, and what is left starts with none. -/
theorem spec (h : Peels P f) (text : Bytes) :
    (∃ run, Words P run ∧ run ++ f text = text) ∧ ∀ w, P w → ¬w <+: f text := by
  -- Strong induction on the length: a word may have more than one byte.
  induction hlength : text.length using Nat.strongRecOn generalizing text with
  | ind n ih =>
    by_cases hword : ∃ w, P w ∧ w <+: text
    · obtain ⟨w, hw, rest, rfl⟩ := hword
      have hshorter : rest.length < n := by
        have hpos := List.length_pos_iff.2 (h.ne_nil w hw)
        rw [← hlength, List.length_append]
        omega
      obtain ⟨⟨run, ⟨ws, hws, rfl⟩, hrun⟩, hstop⟩ := ih _ hshorter rest rfl
      rw [h.step w rest hw]
      refine ⟨⟨w ++ ws.flatten, ⟨w :: ws, List.forall_mem_cons.2 ⟨hw, hws⟩, rfl⟩, ?_⟩, hstop⟩
      rw [List.append_assoc, hrun]
    · have hnone : ∀ w, P w → ¬w <+: text := fun w hw hpre => hword ⟨w, hw, hpre⟩
      rw [h.stop text hnone]
      exact ⟨⟨[], ⟨[], nofun, rfl⟩, rfl⟩, hnone⟩

end Peels

section

variable {blank2 : UInt8 → UInt8 → Bool} {blank3 : UInt8 → UInt8 → UInt8 → Bool}

/-- Where a first byte tells the length of a white-space character, white space is dropped character
by character. -/
theorem trimStartBy_peels (h2 : ∀ a b, blank2 a b = true → isBlank1 a = false)
    (h3 : ∀ a b c, blank3 a b c = true → isBlank1 a = false ∧ blank2 a b = false) :
    Peels (fun w => isBlankBy blank2 blank3 w = true) (trimStartBy blank2 blank3) where
  ne_nil := by
    rintro _ hw rfl
    cases hw
  step := by
    intro w text hw
    unfold isBlankBy at hw
    split at hw
    · rcases text with _ | ⟨b, _ | ⟨c, text⟩⟩ <;> simp [trimStartBy, hw]
    · rcases text with _ | ⟨c, text⟩ <;> simp [trimStartBy, h2 _ _ hw, hw]
    · simp [trimStartBy, h3 _ _ _ hw, hw]
    · cases hw
  stop := by
    intro text h
    have hno : ∀ w, w <+: text → isBlankBy blank2 blank3 w = false :=
      fun w hpre => Bool.eq_false_iff.2 fun hw => h w hw hpre
    rcases text with _ | ⟨a, _ | ⟨b, _ | ⟨c, text⟩⟩⟩
    · rfl
    · have h1 : isBlank1 a = false := hno [a] ⟨_, rfl⟩
      simp [trimStartBy, h1]
    · have h1 : isBlank1 a = false := hno [a] ⟨_, rfl⟩
      have h2 : blank2 a b = false := hno [a, b] ⟨_, rfl⟩
      simp [trimStartBy, h1, h2]
    · have h1 : isBlank1 a = false := hno [a] ⟨_, rfl⟩
      have h2 : blank2 a b = false := hno [a, b] ⟨_, rfl⟩
      have h3 : blank3 a b c = false := hno [a, b, c] ⟨_, rfl⟩
      simp [trimStartBy, h1, h2, h3]

/-- A white-space character in reverse order. -/
theorem isBlankBy_reverse {w : Bytes} (h : isBlankBy blank2 blank3 w = true) :
    isBlankBy (fun b a => blank2 a b) (fun c b a => blank3 a b c) w.reverse = true := by
  unfold isBlankBy at h
  split at h
  · exact h
  · exact h
  · exact h
  · cases h

end

theorem trimStart_peels : Peels (fun w => isBlankChar w = true) trimStart := by
  refine trimStartBy_peels (fun a b h => ?_) fun a b c h => ?_
  · rw [isBlank2_iff] at h
    rw [Bool.eq_false_iff, Ne, isBlank1_iff]
    omega
  · have hranges := ranges_of_isBlank3 h
    rw [Bool.eq_false_iff, Bool.eq_false_iff, Ne, Ne, isBlank1_iff, isBlank2_iff]
    omega

theorem trimStartReversed_peels :
    Peels (fun w => isBlankBy (fun b a => isBlank2 a b) (fun c b a => isBlank3 a b c) w = true)
      trimStartReversed := by
  refine trimStartBy_peels (fun b a h => ?_) fun c b a h => ?_
  · rw [isBlank2_iff] at h
    rw [Bool.eq_false_iff, Ne, isBlank1_iff]
    omega
  · have hranges := ranges_of_isBlank3 h
    rw [Bool.eq_false_iff, Bool.eq_false_iff, Ne, Ne, isBlank1_iff, isBlank2_iff]
    omega

/-! ## The two ends of a text -/

theorem trimStart_append {before : Bytes} (h : Blanks before) (text : Bytes) :
    trimStart (before ++ text) = trimStart text :=
  trimStart_peels.append h text

theorem trimStart_spec (text : Bytes) :
    (∃ before, Blanks before ∧ before ++ trimStart text = text) ∧
      ∀ w, isBlankChar w = true → ¬w <+: trimStart text :=
  trimStart_peels.spec text

theorem trimEnd_append {after : Bytes} (h : Blanks after) (text : Bytes) :
    trimEnd (text ++ after) = trimEnd text := by
  rw [trimEnd, trimEnd, List.reverse_append]
  exact congrArg List.reverse
    (trimStartReversed_peels.append (h.reverse fun w => isBlankBy_reverse) text.reverse)

theorem trimEnd_spec (text : Bytes) :
    (∃ after, Blanks after ∧ trimEnd text ++ after = text) ∧
      ∀ w, isBlankChar w = true → ¬w <:+ trimEnd text := by
  obtain ⟨⟨run, hwords, hrun⟩, hstop⟩ := trimStartReversed_peels.spec text.reverse
  refine ⟨⟨run.reverse, hwords.reverse fun w => isBlankBy_reverse, ?_⟩, ?_⟩
  · rw [trimEnd, ← List.reverse_append, hrun, List.reverse_reverse]
  · intro w hw hsuffix
    refine hstop w.reverse (isBlankBy_reverse hw) ?_
    rw [← List.reverse_suffix, List.reverse_reverse]
    exact hsuffix

/-- Trimming drops white space at the two ends and nothing else, and what is left neither starts nor
ends with a white-space character. -/
theorem trim_spec (text : Bytes) :
    (∃ before after, Blanks before ∧ Blanks after ∧ text = before ++ trim text ++ after) ∧
      (∀ w, isBlankChar w = true → ¬w <+: trim text) ∧
      ∀ w, isBlankChar w = true → ¬w <:+ trim text := by
  obtain ⟨⟨after, hafter, htext⟩, hend⟩ := trimEnd_spec text
  obtain ⟨⟨before, hbefore, hmiddle⟩, hstart⟩ := trimStart_spec (trimEnd text)
  refine ⟨⟨before, after, hbefore, hafter, ?_⟩, hstart, ?_⟩
  · rw [trim, hmiddle, htext]
  · intro w hw hsuffix
    refine hend w hw (hsuffix.trans ?_)
    exact ⟨before, hmiddle⟩

theorem trim_eq_nil_iff {text : Bytes} : trim text = [] ↔ Blanks text := by
  constructor
  · intro h
    obtain ⟨⟨before, after, hbefore, hafter, htext⟩, -⟩ := trim_spec text
    rw [h, List.append_nil] at htext
    rw [htext]
    exact hbefore.append hafter
  · intro h
    rw [trim, ← List.nil_append text, trimEnd_append h]
    rfl

/-- White space at the end of a text that does not end with a white-space character is empty. -/
theorem Blanks.eq_nil {before after : Bytes} (h : Blanks after)
    (hend : ∀ w, isBlankChar w = true → ¬w <:+ before ++ after) : after = [] := by
  obtain ⟨ws, hws, rfl⟩ := h
  rcases List.eq_nil_or_concat ws with rfl | ⟨ws, w, rfl⟩
  · rfl
  · refine absurd ?_ (hend w (hws w (by simp)))
    exact ⟨before ++ ws.flatten, by simp⟩

/-! ## Solid ends -/

section

variable {b : UInt8}

theorem trimStart_of_solid (hb : isSolid b = true) (text : Bytes) :
    trimStart (b :: text) = b :: text := by
  refine trimStart_peels.stop _ fun w hw hpre => ?_
  cases w with
  | nil => cases hw
  | cons c w =>
    obtain ⟨rest, hrest⟩ := hpre
    obtain ⟨rfl, -⟩ := List.cons.inj hrest
    have hnot := isSolid_of_mem_blankChar hw List.mem_cons_self
    rw [hb] at hnot
    cases hnot

theorem trimEnd_of_solid (hb : isSolid b = true) (text : Bytes) :
    trimEnd (text ++ [b]) = text ++ [b] := by
  obtain ⟨⟨after, hafter, htext⟩, -⟩ := trimEnd_spec (text ++ [b])
  rcases List.eq_nil_or_concat after with rfl | ⟨front, c, rfl⟩
  · rwa [List.append_nil] at htext
  · rw [List.concat_eq_append, ← List.append_assoc] at htext
    obtain ⟨-, hlast⟩ := List.append_inj' htext rfl
    have hnot := hafter.not_isSolid (b := b) (by simp [List.singleton_inj.1 hlast])
    rw [hb] at hnot
    cases hnot

end

/-- A text that starts and ends with a solid byte. -/
structure SolidEnds (text : Bytes) : Prop where
  head : ∃ b, text.head? = some b ∧ isSolid b = true
  last : ∃ b, text.getLast? = some b ∧ isSolid b = true

namespace SolidEnds

theorem of_forall {text : Bytes} (hne : text ≠ []) (h : ∀ b ∈ text, isSolid b = true) :
    SolidEnds text where
  head := ⟨text.head hne, List.head?_eq_some_head hne, h _ (List.head_mem hne)⟩
  last := ⟨text.getLast hne, List.getLast?_eq_some_getLast hne, h _ (List.getLast_mem hne)⟩

theorem enclose {a b : UInt8} (ha : isSolid a = true) (hb : isSolid b = true) (text : Bytes) :
    SolidEnds (a :: (text ++ [b])) where
  head := ⟨a, rfl, ha⟩
  last := ⟨b, by rw [← List.cons_append, List.getLast?_concat], hb⟩

/-- White space around a text with solid ends is all that is dropped. -/
theorem trim_eq {text : Bytes} (h : SolidEnds text) {before after : Bytes} (hbefore : Blanks before)
    (hafter : Blanks after) : trim (before ++ text ++ after) = text := by
  obtain ⟨⟨a, ha, hasolid⟩, b, hb, hbsolid⟩ := h
  obtain ⟨front, rfl⟩ := List.getLast?_eq_some_iff.1 hb
  rw [trim, trimEnd_append hafter, ← List.append_assoc, trimEnd_of_solid hbsolid,
    List.append_assoc, trimStart_append hbefore]
  obtain ⟨rest, hrest⟩ := List.head?_eq_some_iff.1 ha
  rw [hrest, trimStart_of_solid hasolid]

theorem trim_self {text : Bytes} (h : SolidEnds text) : trim text = text := by
  have htrim := h.trim_eq blanks_nil blanks_nil
  rwa [List.nil_append, List.append_nil] at htrim

theorem ne_nil {text : Bytes} (h : SolidEnds text) : text ≠ [] := by
  obtain ⟨b, hb, -⟩ := h.head
  rintro rfl
  cases hb

end SolidEnds

/-! ## Where the trimmed text stands -/

/-- A blank at the front would have been trimmed. -/
theorem isBlankInExpr_of_trim {text rest : Bytes} {b : UInt8} (h : trim text = b :: rest) :
    isBlankInExpr b = false := by
  obtain ⟨-, hstart, -⟩ := trim_spec text
  rw [h] at hstart
  rw [Bool.eq_false_iff]
  intro hblank
  have hblank1 : isBlankChar [b] = true := by
    rw [isBlankInExpr_iff, isBlankInLine_iff] at hblank
    refine isBlank1_iff.2 ?_
    omega
  exact hstart [b] hblank1 ⟨rest, rfl⟩

/-- The trimmed text is found in the text, though perhaps before the place where it was left by
trimming. -/
theorem exists_indexOf?_trim (text : Bytes) : ∃ i, indexOf? (trim text) text = some i := by
  obtain ⟨⟨before, after, -, -, htext⟩, -⟩ := trim_spec text
  obtain ⟨i, hi⟩ := exists_indexOf? before (trim text) after
  rw [← List.append_assoc, ← htext] at hi
  exact ⟨i, hi⟩

/-- The number of bytes of white space that a text starts with. -/
def indentation (text : Bytes) : Nat :=
  text.length - (trimStart text).length

theorem indexOf?_append {b : UInt8} {before : Bytes} (hb : b ∉ before) (rest after : Bytes) :
    indexOf? (b :: rest) (before ++ (b :: rest) ++ after) = some before.length := by
  induction before with
  | nil =>
    have hprefix : (b :: rest).isPrefixOf (b :: (rest ++ after)) = true :=
      List.isPrefixOf_iff_prefix.2 ⟨after, rfl⟩
    rw [List.nil_append, List.cons_append, indexOf?, if_pos hprefix]
    rfl
  | cons c before ih =>
    obtain ⟨hbc, hb⟩ := List.ne_and_not_mem_of_not_mem_cons hb
    have hprefix : ¬(b :: rest).isPrefixOf (c :: (before ++ (b :: rest) ++ after)) = true := by
      rw [List.isPrefixOf_iff_prefix]
      rintro ⟨tail, htail⟩
      exact hbc (List.cons.inj htail).1
    rw [List.cons_append, List.cons_append, indexOf?, if_neg hprefix, ih hb]
    rfl

/-- A trimmed text that starts with a solid byte stands behind the indentation. -/
theorem trim_indentation {text : Bytes} {b : UInt8} (hb : (trim text).head? = some b)
    (hsolid : isSolid b = true) :
    ∃ before after, Blanks before ∧ Blanks after ∧ text = before ++ trim text ++ after ∧
      indentation text = before.length := by
  obtain ⟨⟨before, after, hbefore, hafter, htext⟩, -⟩ := trim_spec text
  obtain ⟨rest, hrest⟩ := List.head?_eq_some_iff.1 hb
  refine ⟨before, after, hbefore, hafter, htext, ?_⟩
  rw [indentation, htext, hrest, List.append_assoc, trimStart_append hbefore, List.cons_append,
    trimStart_of_solid hsolid, List.length_append]
  omega

/-- A trimmed text that starts with a solid byte is first found behind the white space. -/
theorem indexOf?_trim {text : Bytes} {b : UInt8} (hb : (trim text).head? = some b)
    (hsolid : isSolid b = true) : indexOf? (trim text) text = some (indentation text) := by
  obtain ⟨before, after, hbefore, -, htext, hindent⟩ := trim_indentation hb hsolid
  obtain ⟨rest, hrest⟩ := List.head?_eq_some_iff.1 hb
  have hnot : b ∉ before := by
    intro hmem
    have hnot := hbefore.not_isSolid hmem
    rw [hsolid] at hnot
    cases hnot
  rw [hindent, hrest]
  rw [hrest] at htext
  rw [htext, indexOf?_append hnot]

end LetPrint.Text
