import LetPrint.Proofs.Text.ByteClasses
import LetPrint.Token.Scan

/-!
# How a text is read

`Reaches start source before rest ts` says without any reader how a source that begins at `start` is
read from left to right: blanks and tokens, each as long as it can be, lead to the place between
`before` and `rest`, and `ts` are the tokens on the way.  Reading goes on until nothing is left, or until
something that is no token is met at such a place (`Faulty`); one of the two always comes
(`Reaches.exists_end`).

A cursor goes the same way (`Reaches.scan`), so these two ends are all that it can come to
(`Cursor.scan_ok_iff`, `Cursor.scan_error_iff`).  Whatever is said elsewhere about the tokens of a text,
which they are or where they lie, is read off this one relation.
-/

namespace LetPrint

open Text

/-! ## Positions -/

namespace Position

theorem past_append (p : Position) (text more : Bytes) :
    p.past (text ++ more) = (p.past text).past more :=
  List.foldl_append

theorem offset_past (p : Position) (text : Bytes) :
    (p.past text).offset = p.offset + text.length := by
  induction text generalizing p with
  | nil => rfl
  | cons b text ih =>
    have hafter : (p.after b).offset = p.offset + 1 := by
      unfold after
      split <;> rfl
    have hstep : p.past (b :: text) = (p.after b).past text := rfl
    rw [hstep, ih, hafter, List.length_cons]
    omega

/-- Within a line, every byte fills a column. -/
theorem past_of_line {p : Position} {text : Bytes} (h : newline ∉ text) :
    p.past text = ⟨p.line, p.column + text.length, p.offset + text.length⟩ := by
  induction text generalizing p with
  | nil => simp [past]
  | cons b text ih =>
    obtain ⟨hb, htext⟩ := List.ne_and_not_mem_of_not_mem_cons h
    have hafter : p.after b = ⟨p.line, p.column + 1, p.offset + 1⟩ :=
      if_neg fun heq => hb (beq_iff_eq.1 heq).symm
    have hstep : p.past (b :: text) = (p.after b).past text := rfl
    have hcolumn : p.column + 1 + (text.length : Int) = p.column + (text.length + 1 : Nat) := by omega
    have hoffset : p.offset + 1 + text.length = p.offset + (text.length + 1) := by omega
    rw [hstep, ih htext, hafter, List.length_cons, hcolumn, hoffset]

end Position

/-! ## What is a token, and what is none -/

/-- An integer literal: decimal digits that denote at most `maxLiteral`. -/
def isNumeral (digits : Bytes) : Bool :=
  !digits.isEmpty && digits.all isDigit && decimalValue digits ≤ maxLiteral

/-- The value of a literal is the number that its digits denote. -/
theorem toInt_ofNat_of_isNumeral {digits : Bytes} (h : isNumeral digits = true) :
    (Int32.ofNat (decimalValue digits)).toInt = decimalValue digits := by
  have hle : decimalValue digits ≤ maxLiteral := of_decide_eq_true (Bool.and_eq_true_iff.1 h).2
  exact Int32.toInt_ofNat_of_lt (Nat.lt_succ_of_le hle)

/-- A text is a token of the kind, and cannot go on into `rest`. -/
inductive IsLexeme : TokenKind → Bytes → Bytes → Prop where
  | int {digits rest : Bytes} (hdigits : isNumeral digits = true) (hend : EndsRun isDigit rest) :
      IsLexeme .int digits rest
  | ident {name rest : Bytes} (hname : isName name = true) (hend : EndsRun isWordByte rest) :
      IsLexeme .ident name rest
  | symbol {b : UInt8} {kind : TokenKind} (hb : TokenKind.ofByte? b = some kind) (rest : Bytes) :
      IsLexeme kind [b] rest

theorem IsLexeme.ne_nil {kind : TokenKind} {text rest : Bytes} (h : IsLexeme kind text rest) :
    text ≠ [] := by
  cases h with
  | int hdigits _ =>
    rintro rfl
    cases hdigits
  | ident hname _ =>
    rintro rfl
    cases hname
  | symbol hb rest => exact List.cons_ne_nil _ _

/-- What stands at the front of the text is no token, and why: a byte that is no blank and starts no
token, or a whole run of digits above the largest literal. -/
inductive Faulty : Bytes → ParseFault → Prop where
  | byte {b : UInt8} (rest : Bytes) (hblank : isBlankInExpr b = false) (hdigit : isDigit b = false)
      (hword : isWordStart b = false) (hsymbol : TokenKind.ofByte? b = none) :
      Faulty (b :: rest) (.unrecognizedByte b)
  | literal {digits rest : Bytes} (hne : digits ≠ []) (hdigits : ∀ b ∈ digits, isDigit b = true)
      (hend : EndsRun isDigit rest) (hvalue : maxLiteral < decimalValue digits) :
      Faulty (digits ++ rest) (.oversizedLiteral digits)

section

variable {b : UInt8}

theorem isBlankInExpr_of_isDigit (h : isDigit b = true) : isBlankInExpr b = false := by
  rw [isDigit_iff] at h
  rw [Bool.eq_false_iff, Ne, isBlankInExpr_iff, isBlankInLine_iff]
  omega

theorem isBlankInExpr_of_isWordStart (h : isWordStart b = true) : isBlankInExpr b = false := by
  rw [isWordStart_iff] at h
  rw [Bool.eq_false_iff, Ne, isBlankInExpr_iff, isBlankInLine_iff]
  omega

theorem isBlankInExpr_of_ofByte? {kind : TokenKind} (h : TokenKind.ofByte? b = some kind) :
    isBlankInExpr b = false := by
  have hnumber := toNat_of_ofByte? h
  rw [Bool.eq_false_iff, Ne, isBlankInExpr_iff, isBlankInLine_iff]
  omega

end

theorem exists_cons_of_isNumeral {digits : Bytes} (h : isNumeral digits = true) :
    ∃ b rest, digits = b :: rest ∧ isDigit b = true := by
  cases digits with
  | nil => cases h
  | cons b rest =>
    simp only [isNumeral, Bool.and_eq_true, List.all_cons] at h
    exact ⟨b, rest, rfl, h.1.2.1⟩

/-- A token that is a single byte is no integer, no name and not the end. -/
theorem ne_of_ofByte? {b : UInt8} {kind : TokenKind} (h : TokenKind.ofByte? b = some kind) :
    kind ≠ .int ∧ kind ≠ .ident ∧ kind ≠ .eof := by
  unfold TokenKind.ofByte? at h
  split at h <;> cases h <;> decide

namespace IsLexeme

variable {kind : TokenKind} {text rest : Bytes}

theorem kind_ne_eof (h : IsLexeme kind text rest) : kind ≠ .eof := by
  cases h with
  | int hdigits hend => decide
  | ident hname hend => decide
  | symbol hb rest => exact (ne_of_ofByte? hb).2.2

theorem isNumeral_of_int (h : IsLexeme .int text rest) : isNumeral text = true := by
  cases h with
  | int hdigits hend => exact hdigits
  | symbol hb rest => exact absurd rfl (ne_of_ofByte? hb).1

theorem isName_of_ident (h : IsLexeme .ident text rest) : isName text = true := by
  cases h with
  | ident hname hend => exact hname
  | symbol hb rest => exact absurd rfl (ne_of_ofByte? hb).2.1

end IsLexeme

/-- What can stand at the front of a text: nothing, a blank, a token, or something that is none. -/
theorem front_cases (text : Bytes) :
    text = [] ∨ (∃ b rest, text = b :: rest ∧ isBlankInExpr b = true) ∨
      (∃ kind lexeme rest, text = lexeme ++ rest ∧ IsLexeme kind lexeme rest) ∨
      ∃ fault, Faulty text fault := by
  cases text with
  | nil => exact .inl rfl
  | cons b rest =>
    have hsplit : ∀ p, b :: rest = (b :: rest).takeWhile p ++ (b :: rest).dropWhile p :=
      fun p => List.takeWhile_append_dropWhile.symm
    cases hblank : isBlankInExpr b with
    | true => exact .inr (.inl ⟨b, rest, rfl, hblank⟩)
    | false =>
      cases hdigit : isDigit b with
      | true =>
        have hne : (b :: rest).takeWhile isDigit ≠ [] := by
          rw [List.takeWhile_cons_of_pos hdigit]
          exact List.cons_ne_nil _ _
        have hend := endsRun_dropWhile isDigit (b :: rest)
        by_cases hvalue : decimalValue ((b :: rest).takeWhile isDigit) ≤ maxLiteral
        · refine .inr (.inr (.inl ⟨.int, _, _, hsplit isDigit, .int ?_ hend⟩))
          simp only [isNumeral, Bool.and_eq_true, decide_eq_true_eq]
          exact ⟨⟨by simpa using hne, List.all_takeWhile⟩, hvalue⟩
        · have hfaulty := Faulty.literal hne (List.all_eq_true.1 List.all_takeWhile) hend
            (Nat.lt_of_not_le hvalue)
          rw [← hsplit isDigit] at hfaulty
          exact .inr (.inr (.inr ⟨_, hfaulty⟩))
      | false =>
        cases hword : isWordStart b with
        | true =>
          refine .inr (.inr (.inl ⟨.ident, _, _, hsplit isWordByte, .ident ?_ ?_⟩))
          · exact isName_takeWhile hword rest
          · exact endsRun_dropWhile isWordByte (b :: rest)
        | false =>
          cases hsymbol : TokenKind.ofByte? b with
          | some kind => exact .inr (.inr (.inl ⟨kind, [b], rest, rfl, .symbol hsymbol rest⟩))
          | none => exact .inr (.inr (.inr ⟨_, .byte rest hblank hdigit hword hsymbol⟩))

/-! ## Places between tokens -/

/-- Reading from left to right leads to the place between `before` and `rest`, with the tokens `ts` on
the way. -/
inductive Reaches (start : Position) (source : Bytes) : Bytes → Bytes → List Token → Prop where
  | nil : Reaches start source [] source []
  | blank {before rest : Bytes} {ts : List Token} {b : UInt8}
      (h : Reaches start source before (b :: rest) ts) (hb : isBlankInExpr b = true) :
      Reaches start source (before ++ [b]) rest ts
  | token {before rest : Bytes} {ts : List Token} {t : Token}
      (h : Reaches start source before (t.text ++ rest) ts)
      (hposition : t.position = start.past before) (hlexeme : IsLexeme t.kind t.text rest) :
      Reaches start source (before ++ t.text) rest (ts ++ [t])

namespace Reaches

variable {start : Position} {source before rest : Bytes} {ts : List Token}

theorem source_eq (h : Reaches start source before rest ts) : before ++ rest = source := by
  induction h with
  | nil => rfl
  | blank h hb ih =>
    rw [← ih, List.append_assoc]
    rfl
  | token h hposition hlexeme ih => rw [← ih, List.append_assoc]

/-- One way goes on where the other ends. -/
theorem trans {middle : Bytes} {us : List Token} (h : Reaches start source before middle ts)
    {before' : Bytes} (h' : Reaches (start.past before) middle before' rest us) :
    Reaches start source (before ++ before') rest (ts ++ us) := by
  induction h' with
  | nil =>
    rw [List.append_nil, List.append_nil]
    exact h
  | blank h' hb ih =>
    rw [← List.append_assoc]
    exact ih.blank hb
  | token h' hposition hlexeme ih =>
    rw [← List.append_assoc, ← List.append_assoc]
    refine ih.token ?_ hlexeme
    rw [hposition, Position.past_append]

/-- Reading goes on to the end of the text, or to something that is no token. -/
theorem exists_end (h : Reaches start source before rest ts) :
    ∃ before' rest' ts', Reaches start source before' rest' ts' ∧
      (rest' = [] ∨ ∃ fault, Faulty rest' fault) := by
  -- Strong induction on what is left: a blank or a token makes it shorter.
  induction hlength : rest.length using Nat.strongRecOn generalizing before rest ts with
  | ind n ih =>
    rcases front_cases rest with rfl | ⟨b, rest, rfl, hb⟩ | ⟨kind, text, rest, rfl, hlexeme⟩ | hfaulty
    · exact ⟨before, [], ts, h, .inl rfl⟩
    · refine ih _ ?_ (h.blank hb) rfl
      rw [← hlength]
      exact Nat.lt_succ_self _
    · have htoken := Reaches.token (t := ⟨kind, text, start.past before⟩) h rfl hlexeme
      refine ih _ ?_ htoken rfl
      have hpositive := List.length_pos_iff.2 hlexeme.ne_nil
      rw [← hlength, List.length_append]
      omega
    · exact ⟨before, rest, ts, h, .inr hfaulty⟩

end Reaches

/-! ## Steps of a cursor -/

namespace Cursor

variable {c c' : Cursor} {t : Token}

theorem skip_of_endsRun {p : UInt8 → Bool} (h : EndsRun p c.rest) : c.skip p = c := by
  have htake : ([] ++ c.rest).takeWhile p = [] := takeWhile_run nofun h
  have hdrop : ([] ++ c.rest).dropWhile p = c.rest := dropWhile_run nofun h
  rw [List.nil_append] at htake hdrop
  simp only [skip, htake, hdrop, Position.past, List.foldl_nil]

/-- A blank before a token matters only for the token's place. -/
theorem next_blank {b : UInt8} {rest : Bytes} (hrest : c.rest = b :: rest)
    (hb : isBlankInExpr b = true) :
    c.next = { c with rest, position := c.position.after b : Cursor }.next := by
  have hskip : c.skip isBlankInExpr =
      { c with rest, position := c.position.after b : Cursor }.skip isBlankInExpr := by
    simp only [skip, hrest, List.takeWhile_cons_of_pos hb, List.dropWhile_cons_of_pos hb,
      Position.past, List.foldl_cons]
  rw [next, next, hskip]

/-- A cursor that stands on no blank reads at once. -/
theorem next_of_head {b : UInt8} {rest : Bytes} (hrest : c.rest = b :: rest)
    (hb : isBlankInExpr b = false) : c.next = c.read := by
  have hend : EndsRun isBlankInExpr c.rest := by
    rw [hrest]
    exact endsRun_cons hb rest
  rw [next, skip_of_endsRun hend]

/-- A cursor steps over a run that ends before the rest. -/
theorem skip_run {p : UInt8 → Bool} {run rest : Bytes} (hended : c.ended = false)
    (hrest : c.rest = run ++ rest) (hrun : ∀ b ∈ run, p b = true) (hend : EndsRun p rest) :
    c.skip p = { rest, position := c.position.past run } := by
  rw [skip, hrest, takeWhile_run hrun hend, dropWhile_run hrun hend, hended]

/-- At the end of a text, a cursor gives the end. -/
theorem next_nil (hended : c.ended = false) (hrest : c.rest = []) :
    c.next = (.ok ⟨.eof, [], c.position⟩, { c with ended := true }) := by
  have hend : EndsRun isBlankInExpr c.rest := by
    rw [hrest]
    nofun
  rw [next, skip_of_endsRun hend, read, hended, hrest]

theorem scan_eof (h : c.next = (.ok t, c')) (ht : t.kind = .eof) : c.scan = ⟨[], .ok t⟩ := by
  rw [scan]
  split
  · rename_i heq
    rw [heq] at h
    cases h
  · rename_i heq
    rw [heq] at h
    cases h
    rw [dif_pos ht]

theorem scan_token (h : c.next = (.ok t, c')) (ht : t.kind ≠ .eof) :
    c.scan = ⟨t :: c'.scan.tokens, c'.scan.ending⟩ := by
  rw [scan]
  split
  · rename_i heq
    rw [heq] at h
    cases h
  · rename_i heq
    rw [heq] at h
    cases h
    rw [dif_neg ht]

theorem scan_error {e : ParseError} (h : c.next = (.error e, c')) : c.scan = ⟨[], .error e⟩ := by
  rw [scan]
  split
  · rename_i heq
    rw [heq] at h
    cases h
    rfl
  · rename_i heq
    rw [heq] at h
    cases h

/-- Cursors whose next tokens are the same give the same tokens. -/
theorem scan_congr {d : Cursor} (h : c.next = d.next) : c.scan = d.scan := by
  rcases hd : d.next with ⟨⟨e⟩ | ⟨t⟩, d'⟩
  · rw [scan_error hd, scan_error (h.trans hd)]
  · by_cases ht : t.kind = .eof
    · rw [scan_eof hd ht, scan_eof (h.trans hd) ht]
    · rw [scan_token hd ht, scan_token (h.trans hd) ht]

end Cursor

section

variable {c : Cursor} {kind : TokenKind} {text rest : Bytes}

/-- A cursor before a token gives the token and stands behind it. -/
theorem IsLexeme.next (h : IsLexeme kind text rest) (hended : c.ended = false)
    (hrest : c.rest = text ++ rest) :
    c.next = (.ok ⟨kind, text, c.position⟩, { rest, position := c.position.past text }) := by
  cases h with
  | int hdigits hend =>
    obtain ⟨b, digits, rfl, hdigit⟩ := exists_cons_of_isNumeral hdigits
    simp only [isNumeral, Bool.and_eq_true, List.all_eq_true, decide_eq_true_eq] at hdigits
    obtain ⟨⟨-, hall⟩, hvalue⟩ := hdigits
    rw [Cursor.next_of_head hrest (isBlankInExpr_of_isDigit hdigit), Cursor.read,
      Cursor.skip_run hended hrest hall hend, hended, hrest]
    simp only [List.cons_append, hdigit, if_true]
    rw [← List.cons_append, takeWhile_run hall hend, if_pos hvalue]
  | ident hname hend =>
    have hall := isWordByte_of_isName hname
    obtain ⟨b, name, rfl, hstart⟩ := exists_cons_of_isName hname
    have hdigit : isDigit b = false := by
      rw [isWordStart_iff] at hstart
      rw [Bool.eq_false_iff, Ne, isDigit_iff]
      omega
    rw [Cursor.next_of_head hrest (isBlankInExpr_of_isWordStart hstart), Cursor.read,
      Cursor.skip_run hended hrest hall hend, hended, hrest]
    simp only [List.cons_append, hdigit, hstart, Bool.false_eq_true, if_false, if_true]
    rw [← List.cons_append, takeWhile_run hall hend]
  | @symbol b kind hb rest =>
    have hother : isDigit b = false ∧ isWordStart b = false := by
      have hnumber := toNat_of_ofByte? hb
      rw [Bool.eq_false_iff, Bool.eq_false_iff, Ne, Ne, isDigit_iff, isWordStart_iff]
      omega
    rw [List.singleton_append] at hrest
    rw [Cursor.next_of_head hrest (isBlankInExpr_of_ofByte? hb), Cursor.read, hended, hrest]
    simp only [hother.1, hother.2, Bool.false_eq_true, if_false, hb]
    rfl

/-- A cursor before what is no token reports it. -/
theorem Faulty.next {fault : ParseFault} (h : Faulty c.rest fault) (hended : c.ended = false) :
    ∃ c', c.next = (.error (c.error fault), c') := by
  generalize hrest : c.rest = text at h
  cases h with
  | byte rest hblank hdigit hword hsymbol =>
    have hnext := Cursor.next_of_head hrest hblank
    rw [Cursor.read, hended, hrest] at hnext
    simp only [hdigit, hword, hsymbol, Bool.false_eq_true, if_false] at hnext
    exact ⟨_, hnext⟩
  | @literal digits rest hne hdigits hend hvalue =>
    have hrun := takeWhile_run hdigits hend
    cases digits with
    | nil => exact absurd rfl hne
    | cons b digits =>
      have hb := hdigits b List.mem_cons_self
      have hnext := Cursor.next_of_head hrest (isBlankInExpr_of_isDigit hb)
      rw [Cursor.read, hended, hrest] at hnext
      simp only [List.cons_append, hb, if_true] at hnext hrun
      rw [hrun, if_neg (Nat.not_le_of_lt hvalue)] at hnext
      exact ⟨_, hnext⟩

end

/-! ## A cursor on the way -/

/-- The cursor between two parts of a source. -/
def Cursor.between (start : Position) (before rest : Bytes) : Cursor :=
  { rest, position := start.past before }

theorem Cursor.between_append (start : Position) (before text rest : Bytes) :
    between start (before ++ text) rest =
      { rest, position := (between start before rest).position.past text } := by
  rw [between, Position.past_append]
  rfl

theorem Cursor.eq_between {c : Cursor} (hended : c.ended = false) :
    c = between c.position [] c.rest := by
  cases c
  cases hended
  rfl

namespace Reaches

variable {start : Position} {source before rest : Bytes} {ts : List Token}

/-- A cursor comes to every place that reading leads to, and has given the tokens on the way. -/
theorem scan (h : Reaches start source before rest ts) :
    (Cursor.between start [] source).scan =
      ⟨ts ++ (Cursor.between start before rest).scan.tokens,
        (Cursor.between start before rest).scan.ending⟩ := by
  induction h with
  | nil => rfl
  | @blank before rest ts b h hb ih =>
    have hscan : (Cursor.between start before (b :: rest)).scan =
        (Cursor.between start (before ++ [b]) rest).scan := by
      rw [Cursor.between_append]
      exact Cursor.scan_congr (Cursor.next_blank rfl hb)
    rw [ih, hscan]
  | @token before rest ts t h hposition hlexeme ih =>
    have hnext : (Cursor.between start before (t.text ++ rest)).next =
        (.ok t, Cursor.between start (before ++ t.text) rest) := by
      rw [hlexeme.next rfl rfl, Cursor.between_append]
      cases t
      cases hposition
      rfl
    rw [ih, Cursor.scan_token hnext hlexeme.kind_ne_eof, List.append_assoc]
    rfl

end Reaches

/-! ## The two ends -/

section

variable {start : Position} {source before rest : Bytes} {ts : List Token}

theorem Reaches.scan_end (h : Reaches start source before [] ts) :
    (Cursor.between start [] source).scan = ⟨ts, .ok ⟨.eof, [], start.past source⟩⟩ := by
  have hbefore : before = source := by rw [← h.source_eq, List.append_nil]
  rw [h.scan, Cursor.scan_eof (Cursor.next_nil rfl rfl) rfl, List.append_nil, hbefore]
  rfl

theorem Reaches.scan_faulty {fault : ParseFault} (h : Reaches start source before rest ts)
    (hfaulty : Faulty rest fault) :
    (Cursor.between start [] source).scan =
      ⟨ts, .error ⟨fault, (start.past before).line, (start.past before).column⟩⟩ := by
  obtain ⟨c', hnext⟩ := Faulty.next (c := .between start before rest) hfaulty rfl
  rw [h.scan, Cursor.scan_error hnext, List.append_nil]
  rfl

namespace Cursor

/-- A cursor comes to the end of a text if and only if reading does. -/
theorem scan_ok_iff {last : Token} :
    (between start [] source).scan = ⟨ts, .ok last⟩ ↔
      Reaches start source source [] ts ∧ last = ⟨.eof, [], start.past source⟩ := by
  constructor
  · intro h
    have hnil : Reaches start source [] source [] := .nil
    obtain ⟨before, rest, ts', hreaches, rfl | ⟨fault, hfaulty⟩⟩ := hnil.exists_end
    · have hbefore : before = source := by rw [← hreaches.source_eq, List.append_nil]
      rw [hreaches.scan_end] at h
      cases h
      rw [hbefore] at hreaches
      exact ⟨hreaches, rfl⟩
    · rw [hreaches.scan_faulty hfaulty] at h
      cases h
  · rintro ⟨hreaches, rfl⟩
    exact hreaches.scan_end

/-- A cursor reports an error if and only if reading leads to something that is no token, and reports
that. -/
theorem scan_error_iff {e : ParseError} :
    (between start [] source).scan = ⟨ts, .error e⟩ ↔
      ∃ before rest fault, Reaches start source before rest ts ∧ Faulty rest fault ∧
        e = ⟨fault, (start.past before).line, (start.past before).column⟩ := by
  constructor
  · intro h
    have hnil : Reaches start source [] source [] := .nil
    obtain ⟨before, rest, ts', hreaches, rfl | ⟨fault, hfaulty⟩⟩ := hnil.exists_end
    · rw [hreaches.scan_end] at h
      cases h
    · rw [hreaches.scan_faulty hfaulty] at h
      cases h
      exact ⟨before, rest, fault, hreaches, hfaulty, rfl⟩
  · rintro ⟨before, rest, fault, hreaches, hfaulty, rfl⟩
    exact hreaches.scan_faulty hfaulty

end Cursor

end

end LetPrint
