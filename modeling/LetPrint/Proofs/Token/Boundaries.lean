import LetPrint.Proofs.Token.Places

/-!
# What a text is made of

`Tiling start source ts` says that the tokens `ts` and blanks make up a source that begins at `start`.
The tokens on the way to its end do (`Reaches.tiling`).  `Cursor.collect_tiles` says where the tokens lie
if a cursor comes to the end of the text, and what it reports if it does not.
-/

namespace LetPrint

open Text

/-- The tokens `ts` lie in a source that begins at `start`, one behind the other, and all else in it is
blank. -/
structure Tiling (start : Position) (source : Bytes) (ts : List Token) : Prop where
  /-- Every text lies at its offset. -/
  text : ∀ t ∈ ts, t.text <+: source.drop t.position.offset
  /-- Line and column are those of the start, moved over all that stands before the token. -/
  position : ∀ t ∈ ts, t.position = start.past (source.take t.position.offset)
  /-- Every text is a token of its kind, and cannot go on. -/
  lexeme : ∀ t ∈ ts, IsLexeme t.kind t.text (source.drop (t.position.offset + t.text.length))
  /-- No integer is the end of a longer run of digits or of a name, and no name is the end of a longer
  one. -/
  whole : ∀ t ∈ ts, (t.kind = .int → EndsRun isWordByte (source.take t.position.offset).reverse) ∧
    (t.kind = .ident → EndsRun isWordStart (source.take t.position.offset).reverse)
  /-- The value of an integer is what its digits denote, leading zeros or not, and is in range. -/
  value : ∀ t ∈ ts, t.kind = .int →
    t.value.toInt = decimalValue t.text ∧ decimalValue t.text ≤ maxLiteral
  /-- Offsets go up, -/
  increasing : ts.Pairwise fun t u => t.position.offset < u.position.offset
  /-- and no two texts share a byte. -/
  disjoint : ts.Pairwise fun t u => t.position.offset + t.text.length ≤ u.position.offset
  /-- A byte that lies in no text is blank. -/
  blank : ∀ i b, source[i]? = some b →
    (∀ t ∈ ts, ¬(t.position.offset ≤ i ∧ i < t.position.offset + t.text.length)) →
    isBlankInExpr b = true

/-- The tokens on the way to the end of a text tile the text. -/
theorem Reaches.tiling {start : Position} {source : Bytes} {ts : List Token}
    (h : Reaches start source source [] ts) (hstart : start.offset = 0) :
    Tiling start source ts := by
  have hplace : ∀ t ∈ ts, ∃ front rest, source = front ++ (t.text ++ rest) ∧
      t.Stands start front rest ∧ t.position.offset = front.length := by
    intro t ht
    obtain ⟨front, rest, hsource, hstands⟩ := h.stands ht
    refine ⟨front, rest, hsource, hstands, ?_⟩
    rw [hstands.position, Position.offset_past, hstart, Nat.zero_add]
  constructor
  case text =>
    intro t ht
    obtain ⟨front, rest, hsource, -, hoffset⟩ := hplace t ht
    rw [hoffset, hsource, List.drop_left]
    exact List.prefix_append _ _
  case position =>
    intro t ht
    obtain ⟨front, rest, hsource, hstands, hoffset⟩ := hplace t ht
    rw [hoffset, hsource, List.take_left]
    exact hstands.position
  case lexeme =>
    intro t ht
    obtain ⟨front, rest, hsource, hstands, hoffset⟩ := hplace t ht
    rw [hoffset, hsource, ← List.append_assoc, ← List.length_append, List.drop_left]
    exact hstands.lexeme
  case whole =>
    intro t ht
    obtain ⟨front, rest, hsource, hstands, hoffset⟩ := hplace t ht
    rw [hoffset, hsource, List.take_left]
    exact ⟨hstands.number, hstands.name⟩
  case value =>
    intro t ht hkind
    obtain ⟨front, rest, -, hstands, -⟩ := hplace t ht
    have hlexeme := hstands.lexeme
    rw [hkind] at hlexeme
    have hnumeral := hlexeme.isNumeral_of_int
    refine ⟨?_, of_decide_eq_true (Bool.and_eq_true_iff.1 hnumeral).2⟩
    rw [Token.value, if_pos hkind, toInt_ofNat_of_isNumeral hnumeral]
  case increasing => exact h.increasing hstart
  case disjoint => exact h.disjoint hstart
  case blank =>
    intro i b hb houtside
    exact h.blank_of_outside hstart hb houtside

namespace TokenStream

variable {s : TokenStream}

theorem collect_eq_ok {tokens : List Token} (h : s.collect = .ok tokens) :
    ∃ last, s = ⟨s.tokens, .ok last⟩ ∧ tokens = s.tokens ++ [last] := by
  obtain ⟨ts, ending⟩ := s
  cases ending with
  | error e => cases h
  | ok last =>
    cases h
    exact ⟨last, rfl, rfl⟩

theorem collect_eq_error_iff {e : ParseError} :
    s.collect = .error e ↔ s = ⟨s.tokens, .error e⟩ := by
  obtain ⟨ts, ending⟩ := s
  cases ending with
  | error e' => simp [collect]
  | ok last => simp [collect]

end TokenStream

/-- All tokens of a text that begins at a given line and column.  If there are some, the last is the end
of the text and the others tile it.  There is an error if and only if reading from left to right leads
to a byte that starts no token, or to a run of digits above the largest literal; the error has its
place.  Nothing is read behind such a thing, so it is the first. -/
theorem Cursor.collect_tiles (source : Bytes) (line column : Int) :
    let start : Position := ⟨line, column, 0⟩
    let collected := (Cursor.start source line column).scan.collect
    (∀ tokens, collected = .ok tokens →
      ∃ ts last, tokens = ts ++ [last] ∧ last = ⟨.eof, [], start.past source⟩ ∧
        last.position.offset = source.length ∧ (∀ t ∈ ts, t.kind ≠ .eof) ∧
        Tiling start source ts) ∧
      ∀ e, collected = .error e ↔
        ∃ before rest ts fault, Reaches start source before rest ts ∧ Faulty rest fault ∧
          e = ⟨fault, (start.past before).line, (start.past before).column⟩ := by
  intro start collected
  have hcollected : collected = (between start [] source).scan.collect := rfl
  rw [hcollected]
  constructor
  · intro tokens htokens
    obtain ⟨last, hscan, rfl⟩ := TokenStream.collect_eq_ok htokens
    obtain ⟨hreaches, hlast⟩ := scan_ok_iff.1 hscan
    have htiling := hreaches.tiling rfl
    refine ⟨_, last, rfl, hlast, ?_, fun t ht => (htiling.lexeme t ht).kind_ne_eof, htiling⟩
    rw [hlast, Position.offset_past, Nat.zero_add]
  · intro e
    rw [TokenStream.collect_eq_error_iff]
    constructor
    · intro hscan
      obtain ⟨before, rest, fault, hreaches, hfaulty, he⟩ := scan_error_iff.1 hscan
      exact ⟨before, rest, _, fault, hreaches, hfaulty, he⟩
    · rintro ⟨before, rest, ts, fault, hreaches, hfaulty, he⟩
      rw [scan_error_iff.2 ⟨before, rest, fault, hreaches, hfaulty, he⟩]

/-- Zeros before a number behind a newline, and a name at once behind the number. -/
def zerosSource : Bytes := utf8 "\n007x"

/-- A name, a blank, and the number after the largest literal. -/
def tooLargeSource : Bytes := utf8 "x 2147483648"

/-- The number and the name of the first text are two tokens that tile it; the second text has an error
at the number. -/
theorem Cursor.collect_tiles_zeros :
    (∃ tokens, (Cursor.start zerosSource 3 5).scan.collect = .ok tokens ∧
      ∃ ts last, tokens = ts ++ [last] ∧ last = ⟨.eof, [], ⟨4, 5, 5⟩⟩ ∧ ts.length = 2 ∧
        Tiling ⟨3, 5, 0⟩ zerosSource ts) ∧
      (Cursor.start tooLargeSource 1 1).scan.collect =
        .error ⟨.oversizedLiteral (utf8 "2147483648"), 1, 3⟩ := by
  constructor
  · let number : Token := ⟨.int, utf8 "007", ⟨4, 1, 1⟩⟩
    let name : Token := ⟨.ident, utf8 "x", ⟨4, 4, 4⟩⟩
    have hblank : Reaches ⟨3, 5, 0⟩ zerosSource (utf8 "\n") (utf8 "007x") [] :=
      Reaches.nil.blank (b := newline) (by decide)
    have hnumber : Reaches ⟨3, 5, 0⟩ zerosSource (utf8 "\n007") (utf8 "x") [number] :=
      hblank.token (t := number) rfl (.int (by decide) (endsRun_cons (by decide) []))
    have hname : Reaches ⟨3, 5, 0⟩ zerosSource zerosSource [] [number, name] :=
      hnumber.token (t := name) rfl (.ident (by decide) (endsRun_nil _))
    have hcollect : (Cursor.start zerosSource 3 5).scan.collect =
        .ok ([number, name] ++ [⟨.eof, [], ⟨4, 5, 5⟩⟩]) := by
      have hscan := hname.scan_end
      change (Cursor.start zerosSource 3 5).scan = _ at hscan
      rw [hscan]
      rfl
    refine ⟨_, hcollect, ?_⟩
    obtain ⟨ts, last, htokens, hlast, -, -, htiling⟩ :=
      (collect_tiles zerosSource 3 5).1 _ hcollect
    obtain ⟨hts, -⟩ := List.append_inj' htokens rfl
    exact ⟨ts, last, htokens, hlast, by rw [← hts]; rfl, htiling⟩
  · let name : Token := ⟨.ident, utf8 "x", ⟨1, 1, 0⟩⟩
    have hname : Reaches ⟨1, 1, 0⟩ tooLargeSource (utf8 "x") (utf8 " 2147483648") [name] :=
      Reaches.nil.token (t := name) rfl (.ident (by decide) (endsRun_cons (by decide) _))
    have hblank : Reaches ⟨1, 1, 0⟩ tooLargeSource (utf8 "x ") (utf8 "2147483648") [name] :=
      hname.blank (b := byte ' ') (by decide)
    have hfaulty : Faulty (utf8 "2147483648" ++ []) (.oversizedLiteral (utf8 "2147483648")) :=
      .literal (by decide) (List.all_eq_true.1 (by decide)) (endsRun_nil _) (by decide)
    exact ((collect_tiles tooLargeSource 1 1).2 _).2 ⟨_, _, _, _, hblank, hfaulty, rfl⟩

end LetPrint
