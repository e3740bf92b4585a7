import LetPrint.Text.Bytes

/-!
# Searching and splitting

What `indexOf?` finds is an occurrence (`indexOf?_eq_some`), and text behind the place where it was
found changes nothing (`indexOf?_append_right`).

`splitOn` and `joinWith` undo each other: the pieces of a text hold no separator
(`not_mem_of_mem_splitOn`), pieces without a separator are found again in the text that they are joined
to (`splitOn_joinWith`), and a text is split at a separator of one's choice (`splitOn_append_sep`).
-/

namespace LetPrint

open Text

/-! ## Searching -/

section

variable {pattern text : Bytes} {i : Nat}

/-- A pattern that is found stands there. -/
theorem indexOf?_eq_some (h : indexOf? pattern text = some i) :
    ∃ before after, text = before ++ (pattern ++ after) ∧ before.length = i := by
  induction text generalizing i with
  | nil =>
    rw [indexOf?] at h
    split at h
    next hempty =>
      cases h
      exact ⟨[], [], by simpa using hempty, rfl⟩
    next => cases h
  | cons b text ih =>
    rw [indexOf?] at h
    split at h
    next hfront =>
      cases h
      obtain ⟨after, hafter⟩ := List.isPrefixOf_iff_prefix.1 hfront
      exact ⟨[], after, hafter.symm, rfl⟩
    next =>
      obtain ⟨j, hj, rfl⟩ := Option.map_eq_some_iff.1 h
      obtain ⟨before, after, htext, hlength⟩ := ih hj
      exact ⟨b :: before, after, by rw [htext, List.cons_append], by simp [hlength]⟩

/-- A pattern that stands somewhere is found. -/
theorem exists_indexOf? (before pattern after : Bytes) :
    ∃ i, indexOf? pattern (before ++ (pattern ++ after)) = some i := by
  induction before with
  | nil =>
    cases htext : pattern ++ after with
    | nil =>
      obtain ⟨rfl, -⟩ := List.append_eq_nil_iff.1 htext
      exact ⟨0, rfl⟩
    | cons b rest =>
      have hfront : pattern.isPrefixOf (b :: rest) = true :=
        List.isPrefixOf_iff_prefix.2 ⟨after, htext⟩
      exact ⟨0, by rw [List.nil_append, indexOf?, if_pos hfront]⟩
  | cons b before ih =>
    obtain ⟨i, hi⟩ := ih
    rw [List.cons_append, indexOf?, hi]
    split
    · exact ⟨0, rfl⟩
    · exact ⟨i + 1, rfl⟩

/-- What stands behind the first occurrence does not matter. -/
theorem indexOf?_append_right (h : indexOf? pattern text = some i) (more : Bytes) :
    indexOf? pattern (text ++ more) = some i := by
  induction text generalizing i with
  | nil =>
    rw [indexOf?] at h
    split at h
    next hempty =>
      cases h
      obtain rfl := List.isEmpty_iff.1 hempty
      cases more <;> rfl
    next => cases h
  | cons b text ih =>
    rw [List.cons_append, indexOf?]
    rw [indexOf?] at h
    split at h
    next hfront =>
      have hfront' : pattern.isPrefixOf (b :: (text ++ more)) = true := by
        rw [List.isPrefixOf_iff_prefix] at hfront ⊢
        exact hfront.trans (List.prefix_append (b :: text) more)
      rw [if_pos hfront', h]
    next hfront =>
      obtain ⟨j, hj, rfl⟩ := Option.map_eq_some_iff.1 h
      obtain ⟨before, after, htext, hlength⟩ := indexOf?_eq_some hj
      -- The pattern is no longer than the text, so it does not reach into what is added.
      have hfront' : ¬pattern.isPrefixOf (b :: (text ++ more)) = true := by
        rw [List.isPrefixOf_iff_prefix] at hfront ⊢
        intro hprefixed
        refine hfront (List.prefix_of_prefix_length_le hprefixed
          (List.prefix_append (b :: text) more) ?_)
        rw [htext]
        simp only [List.length_cons, List.length_append]
        omega
      rw [if_neg hfront', ih hj]
      rfl

end

/-! ## Splitting -/

theorem splitOn_cons_self (sep : UInt8) (text : Bytes) :
    splitOn sep (sep :: text) = [] :: splitOn sep text := by
  rw [splitOn, if_pos (beq_self_eq_true sep)]

theorem splitOn_cons_of_ne {sep b : UInt8} (h : b ≠ sep) (text : Bytes) :
    ∃ piece pieces, splitOn sep text = piece :: pieces ∧
      splitOn sep (b :: text) = (b :: piece) :: pieces := by
  have hbeq : ¬(b == sep) = true := by simpa using h
  have hne : splitOn sep text ≠ [] := by
    cases text with
    | nil => simp [splitOn]
    | cons c text =>
      rw [splitOn]
      split
      · simp
      · split <;> simp
  obtain ⟨piece, pieces, hsplit⟩ := List.exists_cons_of_ne_nil hne
  exact ⟨piece, pieces, hsplit, by rw [splitOn, if_neg hbeq, hsplit]⟩

/-- The lines of two texts with a newline between them are the lines of the first and then those of the
second. -/
theorem splitOn_append_sep (sep : UInt8) (a b : Bytes) :
    splitOn sep (a ++ sep :: b) = splitOn sep a ++ splitOn sep b := by
  induction a with
  | nil => exact splitOn_cons_self sep b
  | cons c a ih =>
    by_cases h : c = sep
    · subst h
      rw [List.cons_append, splitOn_cons_self, splitOn_cons_self, ih, List.cons_append]
    · obtain ⟨piece, pieces, hsplit, hcons⟩ := splitOn_cons_of_ne h a
      obtain ⟨piece', pieces', hsplit', hcons'⟩ := splitOn_cons_of_ne h (a ++ sep :: b)
      rw [ih, hsplit, List.cons_append] at hsplit'
      obtain ⟨rfl, rfl⟩ := List.cons.inj hsplit'
      rw [List.cons_append, hcons, hcons', List.cons_append]

/-- A text has one line more than it has newlines. -/
theorem length_splitOn (sep : UInt8) (text : Bytes) :
    (splitOn sep text).length = text.count sep + 1 := by
  induction text with
  | nil => rfl
  | cons b text ih =>
    by_cases h : b = sep
    · subst h
      rw [splitOn_cons_self, List.length_cons, ih, List.count_cons_self]
    · obtain ⟨piece, pieces, hsplit, hcons⟩ := splitOn_cons_of_ne h text
      rw [hsplit] at ih
      rw [hcons, List.count_cons_of_ne h]
      exact ih

theorem not_mem_of_mem_splitOn {sep : UInt8} {text piece : Bytes} (h : piece ∈ splitOn sep text) :
    sep ∉ piece := by
  induction text generalizing piece with
  | nil =>
    rw [List.mem_singleton.1 h]
    exact List.not_mem_nil
  | cons b text ih =>
    by_cases hb : b = sep
    · subst hb
      rw [splitOn_cons_self] at h
      rcases List.mem_cons.1 h with rfl | h
      · exact List.not_mem_nil
      · exact ih h
    · obtain ⟨first, pieces, hsplit, hcons⟩ := splitOn_cons_of_ne hb text
      rw [hsplit] at ih
      rw [hcons] at h
      rcases List.mem_cons.1 h with rfl | h
      · exact List.not_mem_cons_of_ne_of_not_mem (Ne.symm hb) (ih List.mem_cons_self)
      · exact ih (List.mem_cons_of_mem first h)

theorem splitOn_of_not_mem {sep : UInt8} {piece : Bytes} (h : sep ∉ piece) :
    splitOn sep piece = [piece] := by
  induction piece with
  | nil => rfl
  | cons b piece ih =>
    obtain ⟨hb, hpiece⟩ := List.ne_and_not_mem_of_not_mem_cons h
    obtain ⟨first, pieces, hsplit, hcons⟩ := splitOn_cons_of_ne (Ne.symm hb) piece
    rw [ih hpiece] at hsplit
    cases hsplit
    exact hcons

/-- Joined pieces end with the last one. -/
theorem joinWith_concat (sep last : Bytes) (pieces : List Bytes) :
    ∃ before, joinWith sep (pieces ++ [last]) = before ++ last := by
  induction pieces with
  | nil => exact ⟨[], rfl⟩
  | cons piece pieces ih =>
    obtain ⟨before, hbefore⟩ := ih
    refine ⟨piece ++ sep ++ before, ?_⟩
    cases pieces with
    | nil => simp_all [joinWith]
    | cons => simp_all [joinWith]

/-- Pieces that are joined are found again. -/
theorem splitOn_joinWith {sep : UInt8} {pieces : List Bytes} (hne : pieces ≠ [])
    (h : ∀ piece ∈ pieces, sep ∉ piece) : splitOn sep (joinWith [sep] pieces) = pieces := by
  induction pieces with
  | nil => exact absurd rfl hne
  | cons piece pieces ih =>
    obtain ⟨hpiece, hpieces⟩ := List.forall_mem_cons.1 h
    cases pieces with
    | nil => exact splitOn_of_not_mem hpiece
    | cons next pieces =>
      have hnext := ih (List.cons_ne_nil next pieces) hpieces
      show splitOn sep (piece ++ [sep] ++ joinWith [sep] (next :: pieces)) = _
      rw [List.append_assoc, List.singleton_append, splitOn_append_sep, splitOn_of_not_mem hpiece,
        hnext, List.singleton_append]

end LetPrint
