import LetPrint.Proofs.Text.Quoting

/-!
# The units of a string literal

The body of a literal is a sequence of units: bytes other than the backslash, which stand for
themselves, and the four escapes (`LiteralUnit`).  The first byte of a unit tells how long it is, so a
body splits into units in at most one way (`spelled_injective`).

The reader of bodies takes one unit after the other (`unescape_spelling`) and takes nothing else
(`unescape_cases`).  `unquote_exact` puts this between quotes: the closing quote is found by
its place at the end of the text, so a backslash before it belongs to the body.
-/

namespace LetPrint.Text

/-! ## Units -/

/-- The escapes of the language. -/
inductive Escape where
  | lineFeed
  | tab
  | quote
  | backslash
  deriving DecidableEq, Repr

namespace Escape

/-- The byte that is written behind the backslash. -/
def letter : Escape → UInt8
  | lineFeed => byte 'n'
  | tab => byte 't'
  | quote => byte '"'
  | backslash => byte '\\'

/-- The byte that the escape stands for. -/
def value : Escape → UInt8
  | lineFeed => newline
  | tab => byte '\t'
  | quote => byte '"'
  | backslash => byte '\\'

theorem letter_injective {e e' : Escape} (h : e.letter = e'.letter) : e = e' := by
  cases e <;> cases e' <;> first | rfl | exact absurd h (by decide)

end Escape

theorem escapeValue?_letter (e : Escape) : escapeValue? e.letter = some e.value := by
  cases e <;> rfl

theorem exists_escape_of_escapeValue? {b value : UInt8} (h : escapeValue? b = some value) :
    ∃ e : Escape, e.letter = b ∧ e.value = value := by
  unfold escapeValue? at h
  split at h
  case h_1 hb =>
    cases h
    exact ⟨.lineFeed, (eq_byte_of_ofUInt8 hb).symm, rfl⟩
  case h_2 hb =>
    cases h
    exact ⟨.tab, (eq_byte_of_ofUInt8 hb).symm, rfl⟩
  case h_3 hb =>
    cases h
    exact ⟨.quote, (eq_byte_of_ofUInt8 hb).symm, rfl⟩
  case h_4 hb =>
    cases h
    exact ⟨.backslash, (eq_byte_of_ofUInt8 hb).symm, rfl⟩
  case h_5 => cases h

/-- A unit of a literal's body: a byte that stands for itself, or an escape. -/
inductive LiteralUnit where
  | plain (b : UInt8) (hb : b ≠ byte '\\')
  | escape (e : Escape)
  deriving DecidableEq, Repr

namespace LiteralUnit

/-- How a unit is written. -/
def spelling : LiteralUnit → Bytes
  | plain b _ => [b]
  | escape e => [byte '\\', e.letter]

/-- The byte that a unit stands for. -/
def value : LiteralUnit → UInt8
  | plain b _ => b
  | escape e => e.value

/-- The first unit of a body is no beginning of another. -/
theorem spelling_cancel {u v : LiteralUnit} {rest rest' : Bytes}
    (h : u.spelling ++ rest = v.spelling ++ rest') : u = v ∧ rest = rest' := by
  cases u with
  | plain b hb =>
    cases v with
    | plain c hc =>
      obtain ⟨rfl, hrest⟩ := List.cons.inj h
      exact ⟨rfl, hrest⟩
    | escape e => exact absurd (List.cons.inj h).1 hb
  | escape e =>
    cases v with
    | plain c hc => exact absurd (List.cons.inj h).1.symm hc
    | escape e' =>
      obtain ⟨hletter, hrest⟩ := List.cons.inj (List.cons.inj h).2
      exact ⟨congrArg escape (Escape.letter_injective hletter), hrest⟩

theorem spelling_ne_nil (u : LiteralUnit) : u.spelling ≠ [] := by
  cases u <;> simp [spelling]

end LiteralUnit

/-- The body that units make up. -/
def spelled (units : List LiteralUnit) : Bytes :=
  units.flatMap LiteralUnit.spelling

/-- A body splits into units in one way only. -/
theorem spelled_injective {units others : List LiteralUnit} (h : spelled units = spelled others) :
    units = others := by
  induction units generalizing others with
  | nil =>
    cases others with
    | nil => rfl
    | cons v others =>
      have hnil : v.spelling = [] := (List.append_eq_nil_iff.1 h.symm).1
      exact absurd hnil v.spelling_ne_nil
  | cons u units ih =>
    cases others with
    | nil =>
      have hnil : u.spelling = [] := (List.append_eq_nil_iff.1 h).1
      exact absurd hnil u.spelling_ne_nil
    | cons v others =>
      obtain ⟨rfl, hrest⟩ := LiteralUnit.spelling_cancel h
      rw [ih hrest]

/-! ## Reading units -/

/-- A unit at the front of a body is read to the byte that it stands for. -/
theorem unescape_spelling (u : LiteralUnit) (rest : Bytes) :
    unescape (u.spelling ++ rest) = (unescape rest).map (u.value :: ·) := by
  cases u with
  | plain b hb =>
    have hbeq : ¬(b == byte '\\') = true := by simpa using hb
    show unescape (b :: rest) = _
    rw [unescape.eq_def]
    simp only [hbeq, Bool.false_eq_true, if_false]
    rfl
  | escape e =>
    show unescape (byte '\\' :: e.letter :: rest) = _
    rw [unescape.eq_def]
    simp only [beq_self_eq_true, if_true, escapeValue?_letter]
    rfl

theorem unescape_spelled (units : List LiteralUnit) :
    unescape (spelled units) = .ok (units.map LiteralUnit.value) := by
  induction units with
  | nil => rfl
  | cons u units ih =>
    show unescape (u.spelling ++ spelled units) = _
    rw [unescape_spelling, ih]
    rfl

/-- A body is made up of units, or is refused. -/
theorem unescape_cases (body : Bytes) :
    (∃ units, spelled units = body) ∨ ∃ fault, unescape body = .error fault := by
  -- The induction follows the reader: a byte, or a backslash and the byte behind it.
  fun_induction unescape body with
  | case1 => exact .inl ⟨[], rfl⟩
  | case2 b hb => exact .inr ⟨_, rfl⟩
  | case3 b hb e rest value hvalue ih =>
    obtain ⟨escape, rfl, -⟩ := exists_escape_of_escapeValue? hvalue
    rcases ih with ⟨units, rfl⟩ | ⟨fault, hfault⟩
    · refine .inl ⟨.escape escape :: units, ?_⟩
      rw [eq_of_beq hb]
      rfl
    · refine .inr ⟨fault, ?_⟩
      rw [hfault]
      rfl
  | case4 b hb e rest hvalue => exact .inr ⟨_, rfl⟩
  | case5 b rest hb ih =>
    have hne : b ≠ byte '\\' := by simpa using hb
    rcases ih with ⟨units, rfl⟩ | ⟨fault, hfault⟩
    · exact .inl ⟨.plain b hne :: units, rfl⟩
    · refine .inr ⟨fault, ?_⟩
      rw [hfault]
      rfl

theorem unescape_eq_ok_iff {body text : Bytes} :
    unescape body = .ok text ↔ ∃ units, spelled units = body ∧ text = units.map LiteralUnit.value := by
  constructor
  · intro h
    rcases unescape_cases body with ⟨units, rfl⟩ | ⟨fault, hfault⟩
    · rw [unescape_spelled] at h
      exact ⟨units, rfl, (Except.ok.inj h).symm⟩
    · rw [hfault] at h
      cases h
  · rintro ⟨units, rfl, rfl⟩
    exact unescape_spelled units

/-! ## Between quotes -/

theorem isLiteral_iff {text : Bytes} :
    isLiteral text = true ↔ ∃ body, text = byte '"' :: (body ++ [byte '"']) := by
  simp only [isLiteral, Bool.and_eq_true, decide_eq_true_eq, beq_iff_eq]
  constructor
  · rintro ⟨⟨hlength, hhead⟩, hlast⟩
    obtain ⟨rest, rfl⟩ := List.head?_eq_some_iff.1 hhead
    cases rest with
    | nil => exact absurd hlength (by decide)
    | cons c rest =>
      rw [List.getLast?_cons_cons] at hlast
      obtain ⟨body, hbody⟩ := List.getLast?_eq_some_iff.1 hlast
      exact ⟨body, by rw [hbody]⟩
  · rintro ⟨body, rfl⟩
    refine ⟨⟨?_, rfl⟩, ?_⟩
    · simp
    · rw [← List.cons_append, List.getLast?_concat]

theorem unquote_literal (body : Bytes) :
    unquote (byte '"' :: (body ++ [byte '"'])) = unescape body := by
  rw [unquote, if_pos (isLiteral_iff.2 ⟨body, rfl⟩), List.tail_cons, List.dropLast_concat]

/-- A text is a string literal if and only if it is a body between double quotes that splits into
units; the split is the only one, and the literal stands for the bytes of its units.  Every text has a
literal: its newlines, tabs, double quotes and backslashes escaped, between double quotes. -/
theorem unquote_exact :
    (∀ literal text : Bytes, unquote literal = .ok text ↔
      ∃ body units, literal = byte '"' :: (body ++ [byte '"']) ∧
        (spelled units = body ∧ ∀ others, spelled others = body → others = units) ∧
        text = units.map LiteralUnit.value) ∧
    ∀ text : Bytes, unquote (byte '"' :: (escape text ++ [byte '"'])) = .ok text := by
  refine ⟨fun literal text => ⟨?_, ?_⟩, ?_⟩
  · intro h
    by_cases hliteral : isLiteral literal = true
    · obtain ⟨body, rfl⟩ := isLiteral_iff.1 hliteral
      rw [unquote_literal] at h
      obtain ⟨units, rfl, htext⟩ := unescape_eq_ok_iff.1 h
      exact ⟨_, units, rfl, ⟨rfl, fun others => spelled_injective⟩, htext⟩
    · rw [unquote, if_neg hliteral] at h
      cases h
  · rintro ⟨body, units, rfl, ⟨hspelled, -⟩, htext⟩
    rw [unquote_literal]
    exact unescape_eq_ok_iff.2 ⟨units, hspelled, htext⟩
  · intro text
    rw [unquote_literal, unescape_escape]

end LetPrint.Text
