import LetPrint.Proofs.Token.Lexing

/-!
# The answers of a cursor

A cursor can be asked for one token after the other (`Cursor.take`), or for all that is left at once
(`Cursor.scan`, `TokenStream.collect`).  The two agree, and asking never stops to be answered: behind
the end of the text, and behind an error, the answer is the end of the text, each time the same.

* `Cursor.next_cases` says what one answer can be, and in which state it leaves the cursor;
* `Cursor.take_of_ended`: a cursor that has ended gives its `endToken` for ever.  The blanks before it
  are skipped on the first call only, so the place of the token does not move after that;
* `Cursor.exists_answers` follows the answers of any cursor, and `Cursor.take_of_collect` compares them
  with what is collected.
-/

namespace LetPrint

open Text

/-- The first `n` answers that a stream stands for, if `last` is the answer for ever behind its end or
error. -/
def TokenStream.answers (s : TokenStream) (last : Token) (n : Nat) :
    List (Except ParseError Token) :=
  (s.tokens.map Except.ok ++ s.ending :: List.replicate n (.ok last)).take n

/-- Of a list that goes on with copies of `a`, the first `n` elements need no more than `n` copies. -/
theorem take_append_replicate {α : Type} (xs : List α) (a : α) {n m : Nat} (h : n ≤ m) :
    (xs ++ List.replicate m a).take n = (xs ++ List.replicate n a).take n := by
  simp only [List.take_append, List.take_replicate]
  congr 2
  omega

namespace TokenStream

variable {ending : Except ParseError Token} {ts : List Token} (last : Token)

theorem answers_nil (n : Nat) :
    answers ⟨[], ending⟩ last (n + 1) = ending :: List.replicate n (.ok last) := by
  simp [answers, List.take_replicate]

theorem answers_cons (t : Token) (n : Nat) :
    answers ⟨t :: ts, ending⟩ last (n + 1) = .ok t :: answers ⟨ts, ending⟩ last n := by
  have hcopies := take_append_replicate (ts.map Except.ok ++ [ending]) (.ok last) (Nat.le_succ n)
  simpa [answers] using hcopies

end TokenStream

namespace Cursor

variable {c c' : Cursor} {t : Token}

/-! ## One answer -/

/-- The end of the text as a cursor gives it that has ended: behind the blanks it stands before. -/
def endToken (c : Cursor) : Token :=
  ⟨.eof, [], (c.skip isBlankInExpr).position⟩

theorem skip_skip (p : UInt8 → Bool) : (c.skip p).skip p = c.skip p :=
  skip_of_endsRun (endsRun_dropWhile p c.rest)

theorem endToken_skip : (c.skip isBlankInExpr).endToken = c.endToken := by
  unfold endToken
  rw [skip_skip]

theorem next_of_ended (h : c.ended = true) :
    c.next = (.ok c.endToken, c.skip isBlankInExpr) := by
  have hskip : (c.skip isBlankInExpr).ended = true := h
  rw [next, read, hskip]
  rfl

/-- What a cursor finds that stands on no blank: a token, or the end of the text, or an error.  At the
end and at an error it has ended. -/
theorem read_cases (h : EndsRun isBlankInExpr c.rest) :
    (∃ t c', c.read = (.ok t, c') ∧ t.kind ≠ .eof) ∨
      (∃ c', c.read = (.ok c'.endToken, c') ∧ c'.ended = true) ∨
      ∃ e c', c.read = (.error e, c') ∧ c'.ended = true := by
  have hend : ∀ ended, ({ c with ended } : Cursor).endToken = ⟨.eof, [], c.position⟩ := by
    intro ended
    have hstay : ({ c with ended } : Cursor).skip isBlankInExpr = { c with ended } :=
      skip_of_endsRun h
    rw [endToken, hstay]
  unfold read
  split
  next hended => exact .inr (.inl ⟨c, by rw [← hend c.ended], hended⟩)
  next => exact .inr (.inl ⟨{ c with ended := true }, by rw [hend], rfl⟩)
  next b rest _ _ =>
    -- The three ways to start a token, and the byte that starts none.
    split
    next =>
      by_cases hvalue : decimalValue (c.rest.takeWhile isDigit) ≤ maxLiteral
      · simp only [if_pos hvalue]
        exact .inl ⟨_, _, rfl, by simp⟩
      · simp only [if_neg hvalue]
        exact .inr (.inr ⟨_, _, rfl, rfl⟩)
    next =>
      split
      next => exact .inl ⟨_, _, rfl, by simp⟩
      next =>
        split
        next kind hkind => exact .inl ⟨_, _, rfl, (ne_of_ofByte? hkind).2.2⟩
        next => exact .inr (.inr ⟨_, _, rfl, rfl⟩)

/-- An answer is a token, and then the cursor goes on; or it is the end of the text, which is also
what the cursor will give from then on; or it is an error, and then the cursor has ended. -/
theorem next_cases (c : Cursor) :
    (∃ t c', c.next = (.ok t, c') ∧ t.kind ≠ .eof) ∨
      (∃ c', c.next = (.ok c'.endToken, c') ∧ c'.ended = true) ∨
      ∃ e c', c.next = (.error e, c') ∧ c'.ended = true :=
  read_cases (endsRun_dropWhile isBlankInExpr c.rest)

/-! ## All answers -/

/-- A cursor that has ended gives the same token for ever. -/
theorem take_of_ended (h : c.ended = true) (n : Nat) :
    c.take n = List.replicate n (.ok c.endToken) := by
  induction n generalizing c with
  | zero => rfl
  | succ n ih =>
    have hskip : (c.skip isBlankInExpr).ended = true := h
    rw [take, next_of_ended h, ih hskip, endToken_skip, List.replicate_succ]

/-- An answer that ends a cursor is followed by the end of the text only. -/
theorem take_of_last {answer : Except ParseError Token} (hnext : c.next = (answer, c'))
    (hended : c'.ended = true) (n : Nat) :
    c.take n = TokenStream.answers ⟨[], answer⟩ c'.endToken n := by
  cases n with
  | zero => rfl
  | succ n => rw [take, hnext, TokenStream.answers_nil, take_of_ended hended]

/-- The answers of a cursor are those of its stream: tokens, the end of the text or an error, and from
then on the end of the text. -/
theorem exists_answers (c : Cursor) :
    ∃ last : Token, last.kind = .eof ∧ (∀ t ∈ c.scan.tokens, t.kind ≠ .eof) ∧
      (∀ t, c.scan.ending = .ok t → t = last) ∧ ∀ n, c.take n = c.scan.answers last n := by
  -- Strong induction on what is left of the text: each token leaves less.
  induction hlength : c.rest.length using Nat.strongRecOn generalizing c with
  | ind k ih =>
    rcases next_cases c with ⟨t, c', hnext, ht⟩ | ⟨c', hnext, hended⟩ | ⟨e, c', hnext, hended⟩
    · have hless : c'.rest.length < k := hlength ▸ next_rest_length_lt hnext ht
      obtain ⟨last, hlast, htokens, hending, htake⟩ := ih _ hless c' rfl
      rw [scan_token hnext ht]
      refine ⟨last, hlast, List.forall_mem_cons.2 ⟨ht, htokens⟩, hending, ?_⟩
      intro n
      cases n with
      | zero => rfl
      | succ n => rw [take, hnext, TokenStream.answers_cons, htake n]
    · rw [scan_eof hnext rfl]
      exact ⟨c'.endToken, rfl, by simp, by simp, take_of_last hnext hended⟩
    · rw [scan_error hnext]
      exact ⟨c'.endToken, rfl, by simp, by simp, take_of_last hnext hended⟩

/-- Asking for tokens one by one and collecting them agree, from every cursor on; `tokenize` collects
from line 1, column 1 on.  If tokens are collected, the last and only the last of them is the end of the
text, and the answers are these tokens and then copies of the last.  If there is an error, the answers
are tokens, none of them the end of the text, then the error once, and then copies of one token, the end
of the text. -/
theorem take_of_collect (c : Cursor) :
    match c.scan.collect with
    | .ok tokens =>
      ∃ (front : List Token) (last : Token), tokens = front ++ [last] ∧
        (∀ t ∈ front, t.kind ≠ .eof) ∧ last.kind = .eof ∧
        ∀ n, c.take n = ((tokens ++ List.replicate n last).take n).map .ok
    | .error e =>
      ∃ (front : List Token) (last : Token), (∀ t ∈ front, t.kind ≠ .eof) ∧ last.kind = .eof ∧
        ∀ n, c.take n =
          (front.map Except.ok ++ Except.error e :: List.replicate n (.ok last)).take n := by
  obtain ⟨last, hlast, htokens, hending, htake⟩ := exists_answers c
  unfold TokenStream.answers at htake
  unfold TokenStream.collect
  cases hend : c.scan.ending with
  | ok t =>
    obtain rfl := hending t hend
    refine ⟨c.scan.tokens, t, rfl, htokens, hlast, ?_⟩
    intro n
    rw [htake, hend, List.map_take, List.map_append, List.map_append, List.map_replicate,
      List.append_assoc]
    rfl
  | error e =>
    refine ⟨c.scan.tokens, last, htokens, hlast, ?_⟩
    intro n
    rw [htake, hend]

/-- The cursor stands behind a number that is too large, and steps over the blanks there once. -/
example : (Cursor.start (utf8 "9999999999  x") 1 1).take 3 =
    [.error ⟨.oversizedLiteral (utf8 "9999999999"), 1, 1⟩,
      .ok ⟨.eof, [], ⟨1, 13, 12⟩⟩, .ok ⟨.eof, [], ⟨1, 13, 12⟩⟩] := by
  rfl

end Cursor

end LetPrint
