import LetPrint.Proofs.Token.Lexing

/-!
# Which tokens a text spells

The grammar of expressions does not look at places, so tokens are taken as `Terminal`s: a token without
its place, and with its text only where the kind leaves the text open.  `Lexes text ts` says that reading
leads to the end of `text` with the terminals `ts` on the way, wherever the text begins
(`Reaches.moved`).  It can be built from the front, blank by blank and token by token (`Lexes.blank`,
`Lexes.token`).

`lexes_iff_scan` is what `Cursor.scan_ok_iff` says of terminals: a cursor gets to the end of a text if and
only if the text spells tokens, and then it gives these tokens.
-/

namespace LetPrint

open Text

/-! ## Terminals -/

/-- The operators of a sum. -/
inductive AddOp where
  | add
  | sub
  deriving DecidableEq, Repr

/-- The operators of a product. -/
inductive MulOp where
  | mul
  | div
  deriving DecidableEq, Repr

/-- A token as the grammar of expressions knows it. -/
inductive Terminal where
  | int (digits : Bytes)
  | ident (name : Bytes)
  | addOp (op : AddOp)
  | mulOp (op : MulOp)
  | lparen
  | rparen
  | eof
  deriving DecidableEq, Repr

/-- The terminal of a token of the given kind and text. -/
def TokenKind.terminal (text : Bytes) : TokenKind → Terminal
  | int => .int text
  | ident => .ident text
  | plus => .addOp .add
  | minus => .addOp .sub
  | star => .mulOp .mul
  | slash => .mulOp .div
  | lparen => .lparen
  | rparen => .rparen
  | eof => .eof

/-- A token without its place. -/
def Token.terminal (t : Token) : Terminal :=
  t.kind.terminal t.text

/-! ## The terminals of a text -/

/-- Where a source begins matters for the places of its tokens only. -/
theorem Reaches.moved {start : Position} {source before rest : Bytes} {ts : List Token}
    (h : Reaches start source before rest ts) (start' : Position) :
    ∃ us, Reaches start' source before rest us ∧
      us.map Token.terminal = ts.map Token.terminal := by
  induction h with
  | nil => exact ⟨[], .nil, rfl⟩
  | blank h hb ih =>
    obtain ⟨us, hus, hterminals⟩ := ih
    exact ⟨us, hus.blank hb, hterminals⟩
  | @token before rest ts t h hposition hlexeme ih =>
    obtain ⟨us, hus, hterminals⟩ := ih
    have htoken := hus.token (t := { t with position := start'.past before }) rfl hlexeme
    refine ⟨_, htoken, ?_⟩
    rw [List.map_append, List.map_append, hterminals]
    rfl

/-- The text spells the terminals: reading leads to its end, and they are what is met on the way. -/
def Lexes (text : Bytes) (ts : List Terminal) : Prop :=
  ∃ start tokens, Reaches start text text [] tokens ∧ tokens.map Token.terminal = ts

namespace Lexes

variable {rest : Bytes} {ts : List Terminal}

theorem nil : Lexes [] [] :=
  ⟨⟨1, 1, 0⟩, [], .nil, rfl⟩

theorem blank {b : UInt8} (hb : isBlankInExpr b = true) (h : Lexes rest ts) :
    Lexes (b :: rest) ts := by
  obtain ⟨start, tokens, hreaches, rfl⟩ := h
  have hfirst : Reaches start (b :: rest) [b] rest [] := Reaches.nil.blank hb
  obtain ⟨us, hus, hterminals⟩ := hreaches.moved (start.past [b])
  exact ⟨start, us, hfirst.trans hus, hterminals⟩

theorem token {kind : TokenKind} {text : Bytes} (hlexeme : IsLexeme kind text rest)
    (h : Lexes rest ts) : Lexes (text ++ rest) (kind.terminal text :: ts) := by
  obtain ⟨start, tokens, hreaches, rfl⟩ := h
  have hfirst : Reaches start (text ++ rest) text rest [⟨kind, text, start⟩] :=
    Reaches.nil.token (t := ⟨kind, text, start⟩) rfl hlexeme
  obtain ⟨us, hus, hterminals⟩ := hreaches.moved (start.past text)
  refine ⟨start, ⟨kind, text, start⟩ :: us, hfirst.trans hus, ?_⟩
  rw [List.map_cons, hterminals]
  rfl

end Lexes

/-! ## A cursor in the text -/

/-- A cursor gets to the end of the text and gives the tokens `ts` on the way. -/
def Cursor.Scans (c : Cursor) (ts : List Terminal) : Prop :=
  ∃ last, c.scan.ending = .ok last ∧ last.kind = .eof ∧ c.scan.tokens.map Token.terminal = ts

/-- A cursor that gets to the end of a text has given the tokens that the text spells. -/
theorem lexes_of_ending {c : Cursor} {last : Token} (hended : c.ended = false)
    (hlast : c.scan.ending = .ok last) : Lexes c.rest (c.scan.tokens.map Token.terminal) := by
  have hscan : c.scan = ⟨c.scan.tokens, .ok last⟩ := by rw [← hlast]
  rw [Cursor.eq_between hended] at hscan
  exact ⟨c.position, _, (Cursor.scan_ok_iff.1 hscan).1, by rw [← Cursor.eq_between hended]⟩

/-- A cursor gets to the end of a text if and only if the text spells tokens, and then it gives
these tokens. -/
theorem lexes_iff_scan {c : Cursor} {ts : List Terminal} (hended : c.ended = false) :
    Lexes c.rest ts ↔ c.Scans ts := by
  constructor
  · rintro ⟨start, tokens, hreaches, rfl⟩
    obtain ⟨us, hus, hterminals⟩ := hreaches.moved c.position
    have hscan := hus.scan_end
    rw [← Cursor.eq_between hended] at hscan
    rw [Cursor.Scans, hscan]
    exact ⟨_, rfl, rfl, hterminals⟩
  · rintro ⟨last, hlast, -, rfl⟩
    exact lexes_of_ending hended hlast

end LetPrint
