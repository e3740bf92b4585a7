import LetPrint.ParseError
import LetPrint.Text.Blank
import LetPrint.Token

/-!
# Reading tokens

A `Cursor` stands in a source text and gives one token at a time (`next`).  The end of the text is a
token of its own and is given for ever; after an error the cursor counts as ended.  `scan` collects
what the cursor gives up to the end or the first error, and `tokenize` does so from line 1, column 1.
-/

namespace LetPrint

open Text

/-- The largest integer literal. -/
def maxLiteral : Nat := 2147483647

/-- A place in a source text: what is left of it, where that starts, and whether reading is over. -/
structure Cursor where
  rest : Bytes
  position : Position
  ended : Bool := false
  deriving DecidableEq, Repr

namespace Cursor

/-- A cursor at the start of `source`, which begins at the given line and column. -/
def start (source : Bytes) (line column : Int) : Cursor :=
  { rest := source, position := ⟨line, column, 0⟩ }

/-- Step over the longest run of bytes that satisfy `p`. -/
def skip (p : UInt8 → Bool) (c : Cursor) : Cursor :=
  { c with rest := c.rest.dropWhile p, position := c.position.past (c.rest.takeWhile p) }

/-- An error at the cursor. -/
def error (c : Cursor) (fault : ParseFault) : ParseError :=
  ⟨fault, c.position.line, c.position.column⟩

/-- The token or error at a cursor that stands on no blank. -/
def read (c : Cursor) : Except ParseError Token × Cursor :=
  match c.ended, c.rest with
  | true, _ => (.ok ⟨.eof, [], c.position⟩, c)
  | false, [] => (.ok ⟨.eof, [], c.position⟩, { c with ended := true })
  | false, b :: rest =>
    if isDigit b then
      let digits := c.rest.takeWhile isDigit
      let c' := c.skip isDigit
      if decimalValue digits ≤ maxLiteral then (.ok ⟨.int, digits, c.position⟩, c')
      else (.error (c.error (.oversizedLiteral digits)), { c' with ended := true })
    else if isWordStart b then
      (.ok ⟨.ident, c.rest.takeWhile isWordByte, c.position⟩, c.skip isWordByte)
    else
      match TokenKind.ofByte? b with
      | some kind =>
        (.ok ⟨kind, [b], c.position⟩, { c with rest, position := c.position.after b })
      | none => (.error (c.error (.unrecognizedByte b)), { c with ended := true })

/-- The next token, and the cursor behind it. -/
def next (c : Cursor) : Except ParseError Token × Cursor :=
  (c.skip isBlankInExpr).read

/-- The first `n` answers of a cursor. -/
def take : Nat → Cursor → List (Except ParseError Token)
  | 0, _ => []
  | n + 1, c => c.next.1 :: take n c.next.2

private theorem dropWhile_length_le (p : UInt8 → Bool) (text : Bytes) :
    (text.dropWhile p).length ≤ text.length :=
  (List.dropWhile_sublist p).length_le

private theorem dropWhile_cons_length_lt {p : UInt8 → Bool} {b : UInt8} (h : p b = true)
    (rest : Bytes) : ((b :: rest).dropWhile p).length < (b :: rest).length := by
  rw [List.dropWhile_cons_of_pos h, List.length_cons]
  exact Nat.lt_succ_of_le (dropWhile_length_le p rest)

/-- Every token but the end of the text takes at least one byte. -/
theorem next_rest_length_lt {c c' : Cursor} {t : Token} (h : c.next = (.ok t, c'))
    (ht : t.kind ≠ .eof) : c'.rest.length < c.rest.length := by
  have skipped : (c.skip isBlankInExpr).rest.length ≤ c.rest.length :=
    dropWhile_length_le isBlankInExpr c.rest
  refine Nat.lt_of_lt_of_le ?_ skipped
  unfold next at h
  generalize c.skip isBlankInExpr = d at h
  unfold read at h
  split at h
  · simp only [Prod.mk.injEq, Except.ok.injEq] at h
    exact absurd (h.1 ▸ rfl) ht
  · simp only [Prod.mk.injEq, Except.ok.injEq] at h
    exact absurd (h.1 ▸ rfl) ht
  · rename_i b rest _ hrest
    split at h
    · rename_i hdigit
      simp only at h
      split at h
      · simp only [Prod.mk.injEq] at h
        rw [← h.2]
        simp only [skip, hrest]
        exact dropWhile_cons_length_lt hdigit rest
      · simp at h
    · split at h
      · rename_i hword
        simp only [Prod.mk.injEq] at h
        rw [← h.2]
        simp only [skip, hrest]
        exact dropWhile_cons_length_lt (by simp [isWordByte, hword]) rest
      · split at h
        · simp only [Prod.mk.injEq] at h
          rw [← h.2, hrest]
          simp
        · simp at h

end Cursor

/-- The tokens before the end of a text or its first error, and that end or error. -/
structure TokenStream where
  tokens : List Token
  ending : Except ParseError Token

/-- All that a cursor gives, up to the end of the text or the first error. -/
def Cursor.scan (c : Cursor) : TokenStream :=
  match _h : c.next with
  | (.error e, _) => ⟨[], .error e⟩
  | (.ok t, c') =>
    if _ht : t.kind = .eof then ⟨[], .ok t⟩
    else
      let stream := c'.scan
      ⟨t :: stream.tokens, stream.ending⟩
termination_by c.rest.length
decreasing_by exact Cursor.next_rest_length_lt _h _ht

/-- The collected form of a stream: all tokens with the end of the text as the last, or the error. -/
def TokenStream.collect (s : TokenStream) : Except ParseError (List Token) :=
  match s.ending with
  | .ok last => .ok (s.tokens ++ [last])
  | .error e => .error e

/-- The tokens of a text that starts at line 1, column 1. -/
def tokenize (source : Bytes) : Except ParseError (List Token) :=
  (Cursor.start source 1 1).scan.collect

end LetPrint
