import LetPrint.Proofs.Token.Lexing

/-!
# Where the tokens of a text stand

What `Reaches` says of the tokens on the way.  Each stands in the source at its place and is as long as it
can be (`Token.Stands`, `Reaches.stands`), their texts lie one behind the other (`Reaches.disjoint`,
`Reaches.increasing`), and all that lies between them is blank (`Reaches.blank_of_outside`).

A token cannot go on to the right by `IsLexeme`.  That it is not the end of something longer comes from
what stands before it: wherever reading leads, no run of digits and no name goes on from the one side to
the other (`Reaches.apart`).
-/

namespace LetPrint

open Text

/-! ## Runs that do not go on -/

/-- No run goes on from one text into the other: the one ends in no byte of `p`, or the other starts with
no byte of `q`. -/
def Apart (p q : UInt8 → Bool) (before rest : Bytes) : Prop :=
  EndsRun p before.reverse ∨ EndsRun q rest

/-- A text that starts with a byte of a run is not the end of a longer one. -/
theorem Apart.of_head {p q : UInt8 → Bool} {before rest : Bytes} {b : UInt8}
    (h : Apart p q before (b :: rest)) (hb : q b = true) : EndsRun p before.reverse := by
  rcases h with hbefore | hrest
  · exact hbefore
  · have hnot := hrest b rfl
    rw [hb] at hnot
    cases hnot

theorem endsRun_reverse_concat {p : UInt8 → Bool} {b : UInt8} (hb : p b = false) (text : Bytes) :
    EndsRun p (text ++ [b]).reverse := by
  rw [List.reverse_append]
  exact endsRun_cons hb text.reverse

namespace IsLexeme

variable {kind : TokenKind} {text rest : Bytes}

/-- Digits do not go on behind a token. -/
theorem digitsApart (h : IsLexeme kind text rest) (before : Bytes) :
    Apart isDigit isDigit (before ++ text) rest := by
  cases h with
  | int hdigits hend => exact .inr hend
  | ident hname hend => exact .inr hend.digits
  | symbol hb rest =>
    refine .inl (endsRun_reverse_concat ?_ _)
    have hnumber := toNat_of_ofByte? hb
    rw [Bool.eq_false_iff, Ne, isDigit_iff]
    omega

/-- No name goes on behind a token. -/
theorem namesApart (h : IsLexeme kind text rest) (before : Bytes) :
    Apart isWordStart isWordByte (before ++ text) rest := by
  cases h with
  | int hdigits hend =>
    rcases List.eq_nil_or_concat text with rfl | ⟨front, b, rfl⟩
    · cases hdigits
    · rw [List.concat_eq_append] at hdigits ⊢
      rw [← List.append_assoc]
      refine .inl (endsRun_reverse_concat ?_ _)
      simp only [isNumeral, Bool.and_eq_true, List.all_eq_true] at hdigits
      have hb := isDigit_iff.1 (hdigits.1.2 b (by simp))
      rw [Bool.eq_false_iff, Ne, isWordStart_iff]
      omega
  | ident hname hend => exact .inr hend
  | symbol hb rest =>
    refine .inl (endsRun_reverse_concat ?_ _)
    have hnumber := toNat_of_ofByte? hb
    rw [Bool.eq_false_iff, Ne, isWordStart_iff]
    omega

end IsLexeme

/-! ## The tokens on the way -/

/-- A token stands between two parts of a source that begins at `start`.  It cannot go on to the right,
and it is not the end of something longer: no digit and no name comes at once before a number, and no
name before a name. -/
structure Token.Stands (start : Position) (before rest : Bytes) (t : Token) : Prop where
  position : t.position = start.past before
  lexeme : IsLexeme t.kind t.text rest
  number : t.kind = .int → EndsRun isWordByte before.reverse
  name : t.kind = .ident → EndsRun isWordStart before.reverse

namespace Reaches

variable {start : Position} {source before rest : Bytes} {ts : List Token}

/-- What goes on neither over a blank nor behind a token goes on nowhere that reading leads to. -/
theorem apart {p q : UInt8 → Bool} (h : Reaches start source before rest ts)
    (hblank : ∀ b, p b = true → isBlankInExpr b = false)
    (hlexeme : ∀ kind text rest, IsLexeme kind text rest →
      ∀ before, Apart p q (before ++ text) rest) : Apart p q before rest := by
  cases h with
  | nil => exact .inl (endsRun_nil _)
  | @blank before _ _ b h hb =>
    refine .inl (endsRun_reverse_concat ?_ _)
    rw [Bool.eq_false_iff]
    intro hp
    rw [hblank b hp] at hb
    cases hb
  | token h hposition hlex => exact hlexeme _ _ _ hlex _

/-- A token that comes next stands where it is met. -/
theorem stands_next {t : Token} (h : Reaches start source before (t.text ++ rest) ts)
    (hposition : t.position = start.past before) (hlexeme : IsLexeme t.kind t.text rest) :
    t.Stands start before rest := by
  have hdigits : Apart isDigit isDigit before (t.text ++ rest) :=
    h.apart (fun _ => isBlankInExpr_of_isDigit) fun _ _ _ => IsLexeme.digitsApart
  have hnames : Apart isWordStart isWordByte before (t.text ++ rest) :=
    h.apart (fun _ => isBlankInExpr_of_isWordStart) fun _ _ _ => IsLexeme.namesApart
  refine ⟨hposition, hlexeme, fun hkind => ?_, fun hkind => ?_⟩
  · rw [hkind] at hlexeme
    obtain ⟨b, tail, htext, hb⟩ := exists_cons_of_isNumeral hlexeme.isNumeral_of_int
    rw [htext] at hdigits hnames
    have hnoDigit := hdigits.of_head hb
    have hnoStart := hnames.of_head (isWordByte_iff.2 (.inr hb))
    intro c hc
    rw [isWordByte, hnoStart c hc, hnoDigit c hc]
    rfl
  · rw [hkind] at hlexeme
    obtain ⟨b, tail, htext, hb⟩ := exists_cons_of_isName hlexeme.isName_of_ident
    rw [htext] at hnames
    exact hnames.of_head (isWordByte_iff.2 (.inl hb))

/-- Before each token on the way there is a place to which reading leads. -/
theorem before_token {pre post : List Token} {t : Token}
    (h : Reaches start source before rest ts) (hts : ts = pre ++ t :: post) :
    ∃ before' rest', Reaches start source before' (t.text ++ rest') pre ∧
      t.position = start.past before' ∧ IsLexeme t.kind t.text rest' := by
  induction h generalizing post with
  | nil => simp at hts
  | blank h hb ih => exact ih hts
  | @token before rest ts u h hposition hlexeme ih =>
    rcases List.eq_nil_or_concat post with rfl | ⟨post, last, rfl⟩
    · obtain ⟨rfl, hu⟩ := List.append_inj' hts rfl
      cases hu
      exact ⟨before, rest, h, hposition, hlexeme⟩
    · rw [List.concat_eq_append, ← List.cons_append, ← List.append_assoc] at hts
      obtain ⟨rfl, -⟩ := List.append_inj' hts rfl
      exact ih rfl

/-- Every token on the way stands in the source. -/
theorem stands {t : Token} (h : Reaches start source before rest ts) (ht : t ∈ ts) :
    ∃ front rest', source = front ++ (t.text ++ rest') ∧ t.Stands start front rest' := by
  obtain ⟨pre, post, hts⟩ := List.append_of_mem ht
  obtain ⟨front, rest', hfront, hposition, hlexeme⟩ := h.before_token hts
  exact ⟨front, rest', hfront.source_eq.symm, hfront.stands_next hposition hlexeme⟩

/-- The texts on the way lie before the place. -/
theorem end_le (h : Reaches start source before rest ts) (hstart : start.offset = 0) :
    ∀ t ∈ ts, t.position.offset + t.text.length ≤ before.length := by
  induction h with
  | nil =>
    intro t ht
    cases ht
  | blank h hb ih =>
    intro t ht
    have hle := ih t ht
    rw [List.length_append]
    omega
  | token h hposition hlexeme ih =>
    intro t ht
    rw [List.length_append]
    rcases List.mem_append.1 ht with ht | ht
    · have hle := ih t ht
      omega
    · rw [List.mem_singleton.1 ht, hposition, Position.offset_past, hstart]
      omega

theorem disjoint (h : Reaches start source before rest ts) (hstart : start.offset = 0) :
    ts.Pairwise fun t u => t.position.offset + t.text.length ≤ u.position.offset := by
  induction h with
  | nil => exact .nil
  | blank h hb ih => exact ih
  | token h hposition hlexeme ih =>
    refine List.pairwise_append.2 ⟨ih, List.pairwise_singleton _ _, ?_⟩
    intro t ht u hu
    rw [List.mem_singleton.1 hu, hposition, Position.offset_past, hstart, Nat.zero_add]
    exact h.end_le hstart t ht

theorem increasing (h : Reaches start source before rest ts) (hstart : start.offset = 0) :
    ts.Pairwise fun t u => t.position.offset < u.position.offset := by
  refine (h.disjoint hstart).imp_of_mem fun {t u} ht _ hle => ?_
  obtain ⟨front, rest', -, hstands⟩ := h.stands ht
  have hpositive := List.length_pos_iff.2 hstands.lexeme.ne_nil
  omega

/-- A byte on the way that lies in no text is blank. -/
theorem blank_of_outside (h : Reaches start source before rest ts) (hstart : start.offset = 0)
    {i : Nat} {b : UInt8} (hb : before[i]? = some b)
    (houtside : ∀ t ∈ ts, ¬(t.position.offset ≤ i ∧ i < t.position.offset + t.text.length)) :
    isBlankInExpr b = true := by
  induction h with
  | nil => simp at hb
  | @blank before rest ts c h hc ih =>
    rcases Nat.lt_or_ge i before.length with hi | hi
    · rw [List.getElem?_append_left hi] at hb
      exact ih hb houtside
    · rw [List.getElem?_append_right hi] at hb
      have hmem := List.mem_of_getElem? hb
      rw [List.mem_singleton.1 hmem]
      exact hc
  | @token before rest ts t h hposition hlexeme ih =>
    rcases Nat.lt_or_ge i before.length with hi | hi
    · rw [List.getElem?_append_left hi] at hb
      exact ih hb fun u hu => houtside u (List.mem_append_left _ hu)
    · -- The byte would lie in the text of the last token.
      have hlength := (List.getElem?_eq_some_iff.1 hb).1
      have hlast := houtside t (List.mem_append_right _ List.mem_cons_self)
      rw [hposition, Position.offset_past, hstart] at hlast
      rw [List.length_append] at hlength
      omega

end Reaches

/-- Wherever a cursor ends, reading leads there with the tokens that it gave. -/
theorem Cursor.exists_reaches (start : Position) (source : Bytes) :
    ∃ before rest, Reaches start source before rest (between start [] source).scan.tokens := by
  rcases hscan : (between start [] source).scan with ⟨tokens, ending⟩
  cases ending with
  | ok last => exact ⟨_, _, (scan_ok_iff.1 hscan).1⟩
  | error e =>
    obtain ⟨before, rest, fault, hreaches, -⟩ := scan_error_iff.1 hscan
    exact ⟨before, rest, hreaches⟩

end LetPrint
