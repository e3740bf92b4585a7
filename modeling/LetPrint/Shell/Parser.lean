import LetPrint.Shell

/-!
# Reading shell scripts

A script is split into words and operators, and these are read as commands.
-/

namespace LetPrint.Shell

open Text

/-! ## Words and operators -/

/-- A word, an operator, or the number of a descriptor before a redirection. -/
inductive Lexeme where
  | word (w : Word)
  | operator (text : Bytes)
  | descriptor (fd : Nat)
  deriving DecidableEq, Repr

/-- The parameter after a `$`, and what follows it. -/
def parameter? : Bytes → Option (Parameter × Bytes)
  | [] => none
  | b :: rest =>
    match Char.ofUInt8 b with
    | '@' | '*' => some (.arguments, rest)
    | '#' => some (.count, rest)
    | '?' => some (.status, rest)
    | '$' => some (.process, rest)
    | '\x7b' =>
      let name := rest.takeWhile (· != byte '\x7d')
      let after := (rest.dropWhile (· != byte '\x7d')).drop 1
      if name.all isDigit then some (.argument (decimalValue name), after)
      else some (.named name, after)
    | _ =>
      if isDigit b then some (.argument (b.toNat - 48), rest)
      else if isWordStart b then
        some (.named ((b :: rest).takeWhile isWordByte), (b :: rest).dropWhile isWordByte)
      else none

/-- The parts of a text in double quotes up to the closing quote, and what follows it. -/
def doubleQuoted : Nat → Bytes → Word × Bytes
  | 0, rest => ([], rest)
  | _, [] => ([], [])
  | fuel + 1, b :: rest =>
    if b == byte '"' then ([], rest)
    else if b == byte '\\' then
      match rest with
      | e :: rest' =>
        let special := e == byte '$' || e == byte '"' || e == byte '\\' || e == 0x60
        let (parts, after) := doubleQuoted fuel rest'
        (.literal (if special then [e] else [b, e]) true :: parts, after)
      | [] => ([.literal [b] true], [])
    else if b == byte '$' then
      match parameter? rest with
      | some (p, rest') =>
        let (parts, after) := doubleQuoted fuel rest'
        (.parameter p true :: parts, after)
      | none =>
        let (parts, after) := doubleQuoted fuel rest
        (.literal [b] true :: parts, after)
    else
      let (parts, after) := doubleQuoted fuel rest
      (.literal [b] true :: parts, after)

/-- A byte that ends a word. -/
def endsWord (b : UInt8) : Bool :=
  (utf8 " \t\n;&|<>()").contains b

/-- The parts of a word, and what follows it. -/
def wordParts : Nat → Bytes → Word × Bytes
  | 0, rest => ([], rest)
  | _, [] => ([], [])
  | fuel + 1, b :: rest =>
    if endsWord b then ([], b :: rest)
    else if b == byte '\'' then
      let text := rest.takeWhile (· != byte '\'')
      let (parts, after) := wordParts fuel ((rest.dropWhile (· != byte '\'')).drop 1)
      (.literal text true :: parts, after)
    else if b == byte '"' then
      let (inner, rest') := doubleQuoted fuel rest
      let (parts, after) := wordParts fuel rest'
      ((if inner.isEmpty then [.literal [] true] else inner) ++ parts, after)
    else if b == byte '\\' then
      match rest with
      | e :: rest' =>
        let (parts, after) := wordParts fuel rest'
        (if e == newline then parts else .literal [e] true :: parts, after)
      | [] => ([.literal [b] true], [])
    else if b == byte '$' then
      match parameter? rest with
      | some (p, rest') =>
        let (parts, after) := wordParts fuel rest'
        (.parameter p false :: parts, after)
      | none =>
        let (parts, after) := wordParts fuel rest
        (.literal [b] false :: parts, after)
    else
      let (parts, after) := wordParts fuel rest
      (.literal [b] false :: parts, after)

/-- Neighbouring literal parts of one sort as one part. -/
def mergeParts : Word → Word
  | .literal a q :: rest =>
    match mergeParts rest with
    | .literal b r :: parts =>
      if q = r then .literal (a ++ b) q :: parts else .literal a q :: .literal b r :: parts
    | parts => .literal a q :: parts
  | p :: rest => p :: mergeParts rest
  | [] => []

/-- The operators of two bytes. -/
def longOperators : List Bytes :=
  [utf8 "&&", utf8 "||", utf8 ">>", utf8 ">&", utf8 "<&"]

/-- The words and operators of a script. -/
def lexemes : Nat → Bytes → List Lexeme
  | 0, _ => []
  | _, [] => []
  | fuel + 1, b :: rest =>
    if b == byte ' ' || b == byte '\t' then lexemes fuel rest
    else if b == byte '#' then lexemes fuel (rest.dropWhile (· != newline))
    else if endsWord b then
      if longOperators.contains ((b :: rest).take 2) then
        .operator ((b :: rest).take 2) :: lexemes fuel (rest.drop 1)
      else .operator [b] :: lexemes fuel rest
    else
      let digits := (b :: rest).takeWhile isDigit
      let after := (b :: rest).dropWhile isDigit
      if !digits.isEmpty && (after.head? == some (byte '>') || after.head? == some (byte '<')) then
        .descriptor (decimalValue digits) :: lexemes fuel after
      else
        let (parts, after) := wordParts (rest.length + 1) (b :: rest)
        .word (mergeParts parts) :: lexemes fuel after

/-! ## Commands -/

/-- Words that have a meaning of their own where a command is due. -/
def reserved : List Bytes :=
  [utf8 "if", utf8 "then", utf8 "elif", utf8 "else", utf8 "fi", utf8 "while", utf8 "until",
   utf8 "do", utf8 "done", utf8 "!", utf8 "\x7b", utf8 "\x7d"]

/-- The reserved word that a lexeme is. -/
def reserved? : Lexeme → Option Bytes
  | .word [.literal text false] => if reserved.contains text then some text else none
  | _ => none

/-- Drop separators in front of a command. -/
def skipSeparators : List Lexeme → List Lexeme
  | .operator text :: rest =>
    if text == utf8 ";" || text == [newline] then skipSeparators rest else .operator text :: rest
  | lexemes => lexemes

/-- `name=value` at the front of a command. -/
def assignment? : Word → Option (Bytes × Word)
  | .literal text false :: parts =>
    let name := text.takeWhile isWordByte
    match text.dropWhile isWordByte with
    | b :: value =>
      if b == byte '=' && (name.head?.any isWordStart) then
        some (name, if value.isEmpty then parts else .literal value false :: parts)
      else none
    | [] => none
  | _ => none

/-- A redirection at the front of a list of lexemes. -/
def redirection? : List Lexeme → Option (Redirection × List Lexeme)
  | .descriptor fd :: .operator op :: .word w :: rest =>
    if op == utf8 ">" then some (.toFile fd w false, rest)
    else if op == utf8 ">>" then some (.toFile fd w true, rest)
    else if op == utf8 ">&" then some (.duplicate fd w, rest)
    else if op == utf8 "<" then some (.fromFile w, rest)
    else none
  | .operator op :: .word w :: rest =>
    if op == utf8 ">" then some (.toFile 1 w false, rest)
    else if op == utf8 ">>" then some (.toFile 1 w true, rest)
    else if op == utf8 ">&" then some (.duplicate 1 w, rest)
    else if op == utf8 "<" then some (.fromFile w, rest)
    else none
  | _ => none

/-- The redirections at the front of a list of lexemes. -/
def redirections : Nat → List Lexeme → List Redirection × List Lexeme
  | 0, rest => ([], rest)
  | fuel + 1, lexemes =>
    match redirection? lexemes with
    | some (r, rest) =>
      let (more, rest) := redirections fuel rest
      (r :: more, rest)
    | none => ([], lexemes)

/-- The words and redirections of a simple command. -/
def simpleParts : Nat → List Lexeme → List Word × List Redirection × List Lexeme
  | 0, rest => ([], [], rest)
  | fuel + 1, lexemes =>
    match redirection? lexemes with
    | some (r, rest) =>
      let (words, more, rest) := simpleParts fuel rest
      (words, r :: more, rest)
    | none =>
      match lexemes with
      | .word w :: rest =>
        let (words, more, rest) := simpleParts fuel rest
        (w :: words, more, rest)
      | _ => ([], [], lexemes)

/-- The assignments in front of a command's words, and these words. -/
def splitAssignments : List Word → List (Bytes × Word) × List Word
  | w :: words =>
    match assignment? w with
    | some a =>
      let (more, words) := splitAssignments words
      (a :: more, words)
    | none => ([], w :: words)
  | [] => ([], [])

/-- A command with its redirections, if it has any. -/
def withRedirections (c : Command) (rs : List Redirection) : Command :=
  if rs.isEmpty then c else .redirected c rs

/-- How a list goes on, by the lexemes after a command. -/
def joint? : List Lexeme → Option (Joint × List Lexeme)
  | .operator text :: rest =>
    if text == utf8 ";" || text == [newline] then some (.always, rest)
    else if text == utf8 "&&" then some (.andThen, rest)
    else if text == utf8 "||" then some (.orElse, rest)
    else none
  | _ => none

/-- Expect a reserved word. -/
def expect (text : Bytes) : List Lexeme → Option (List Lexeme)
  | l :: rest => if reserved? l == some text then some rest else none
  | [] => none

mutual

/-- One command. -/
def command? : Nat → List Lexeme → Option (Command × List Lexeme)
  | 0, _ => none
  | fuel + 1, lexemes => do
    let first ← lexemes.head?
    match reserved? first with
    | none =>
      let (words, rs, rest) := simpleParts (lexemes.length + 1) lexemes
      if words.isEmpty && rs.isEmpty then none
      else
        let (assignments, words) := splitAssignments words
        some (withRedirections (.simple assignments words) rs, rest)
    | some keyword =>
      let rest := lexemes.drop 1
      if keyword == utf8 "!" then
        let (c, rest) ← command? fuel rest
        some (.not c, rest)
      else if keyword == utf8 "\x7b" then
        let (c, rest) ← list? fuel rest
        let rest ← expect (utf8 "\x7d") rest
        let (rs, rest) := redirections (rest.length + 1) rest
        some (withRedirections c rs, rest)
      else if keyword == utf8 "while" || keyword == utf8 "until" then
        let (test, rest) ← list? fuel rest
        let rest ← expect (utf8 "do") rest
        let (body, rest) ← list? fuel rest
        let rest ← expect (utf8 "done") rest
        let (rs, rest) := redirections (rest.length + 1) rest
        some (withRedirections (.loop (keyword == utf8 "until") test body) rs, rest)
      else if keyword == utf8 "if" then
        let (c, rest) ← conditional? fuel rest
        let (rs, rest) := redirections (rest.length + 1) rest
        some (withRedirections c rs, rest)
      else none

/-- What follows `if` or `elif`, up to and including `fi`. -/
def conditional? : Nat → List Lexeme → Option (Command × List Lexeme)
  | 0, _ => none
  | fuel + 1, lexemes => do
    let (test, rest) ← list? fuel lexemes
    let rest ← expect (utf8 "then") rest
    let (yes, rest) ← list? fuel rest
    match rest with
    | [] => none
    | l :: rest =>
      if reserved? l == some (utf8 "fi") then some (.cond test yes .skip, rest)
      else if reserved? l == some (utf8 "elif") then
        let (no, rest) ← conditional? fuel rest
        some (.cond test yes no, rest)
      else if reserved? l == some (utf8 "else") then
        let (no, rest) ← list? fuel rest
        let rest ← expect (utf8 "fi") rest
        some (.cond test yes no, rest)
      else none

/-- A list of commands, up to a word that closes it or the end. -/
def list? : Nat → List Lexeme → Option (Command × List Lexeme)
  | 0, _ => none
  | fuel + 1, lexemes =>
    let lexemes := skipSeparators lexemes
    match lexemes with
    | [] => some (.skip, [])
    | l :: _ =>
      let closes := (reserved? l).any fun text =>
        !([utf8 "if", utf8 "while", utf8 "until", utf8 "!", utf8 "\x7b"].contains text)
      if closes then some (.skip, lexemes)
      else do
        let (first, rest) ← command? fuel lexemes
        match joint? rest with
        | some (joint, rest) =>
          let (more, rest) ← list? fuel rest
          some (.next first joint more, rest)
        | none => some (first, rest)

end

/-- The commands of a script. -/
def parse? (script : Bytes) : Option Command := do
  let tokens := lexemes (script.length + 1) script
  let (c, rest) ← list? (2 * tokens.length + 2) tokens
  if rest.isEmpty then some c else none

end LetPrint.Shell
