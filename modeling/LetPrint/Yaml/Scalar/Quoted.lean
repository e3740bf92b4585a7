import LetPrint.Text.Utf8
import LetPrint.Yaml.Cursor
import LetPrint.Yaml.Resolution

/-!
# Quoted scalars

A scalar in single quotes has one escape, the quote written twice.  One in double quotes has escapes
with a backslash, and a backslash at the end of a line joins the next line to it.  Line ends are folded
in both.
-/

namespace LetPrint.Yaml

open Text

/-- The number of hexadecimal digits that an escape takes. -/
def escapeWidth (c : Char) : Nat :=
  if c == 'x' then 2 else if c == 'u' then 4 else if c == 'U' then 8 else 0

/-- What the character after a backslash stands for. -/
def escapeChar? (c : Char) : Option Char :=
  [('0', '\x00'), ('a', '\x07'), ('b', '\x08'), ('t', '\t'), ('\t', '\t'), ('n', '\n'),
   ('v', '\x0b'), ('f', '\x0c'), ('r', '\r'), ('e', '\x1b'), (' ', ' '), ('"', '"'),
   (singleQuote, singleQuote), ('\\', '\\'), ('N', '\u0085'), ('_', '\u00a0'),
   ('L', '\u2028'), ('P', '\u2029')].lookup c

/-- The character that a backslash and `text` stand for, and the number of characters of `text` it
takes. -/
def readEscape : List Char → Except Problem (Char × Nat)
  | [] => .error .unknownEscape
  | c :: rest =>
    let width := escapeWidth c
    if width = 0 then
      match escapeChar? c with
      | some char => .ok (char, 1)
      | none => .error .unknownEscape
    else
      let digits := rest.take width
      match numeral? 16 (encodeChars digits) with
      | none => .error .escapeDigits
      | some n =>
        if digits.length < width then .error .escapeDigits
        else if isNoCharacter n then .error .escapeCharacter
        else .ok (Char.ofNat n, 1 + width)

/-- What a gap inside quotes stands for; `joined` says that a backslash has ended the line before it,
so that the blanks at its start do not count and every line end stands for itself. -/
def quotedGap (joined : Bool) (gap : List Char) : List Char :=
  if joined then lineEnds gap else foldGap gap

/-- Read the text of a scalar up to its closing quote.  The scalar starts on `line`, and `gap` is the
gap since its last word; `inWord` says that there is none. -/
def quotedText (fuel : Nat) (isDouble : Bool) (line : Nat) (joined : Bool) (gap : List Char)
    (inWord : Bool) (c : Cursor) : Except Fault (List Char × Cursor) :=
  match fuel with
  | 0 => .error ⟨.unclosedQuote, line, c.line⟩
  | fuel + 1 => do
    let c ← c.need (if inWord then 2 else 4)
    if !inWord && c.column = 0 && startsAnyMarker c.rest then
      throw ⟨.markerInQuote, line, c.line⟩
    let before := quotedGap joined gap
    let goOn (text : List Char) (next : Cursor) : Except Fault (List Char × Cursor) := do
      let (more, next) ← quotedText fuel isDouble line false [] true next
      return (before ++ text ++ more, next)
    match c.rest with
    | [] => throw ⟨.unclosedQuote, line, c.line⟩
    | char :: rest =>
      if isGap char then
        let (more, next) ← c.passGap (-1) line
        quotedText fuel isDouble line joined (gap ++ more) false next
      else if isDouble && char == '"' then return (before, c.step)
      else if isDouble && char == '\\' then
        if rest.head?.any isBreak then
          let c ← c.need 3
          let (more, next) ← quotedText fuel isDouble line true [] false c.step.passBreak.2
          return (before ++ more, next)
        else
          match readEscape rest with
          | .error .unknownEscape => throw ⟨.unknownEscape, line, c.line⟩
          | result =>
            let c ← (c.skip 2).need (rest.head?.elim 0 escapeWidth)
            match result with
            | .error problem => throw ⟨problem, line, c.line⟩
            | .ok (char, taken) => goOn [char] (c.skip (taken - 1))
      else if !isDouble && char == singleQuote then
        if rest.head? == some singleQuote then goOn [char] (c.skip 2) else return (before, c.step)
      else goOn [char] c.step

/-- Read a scalar whose opening quote stands here. -/
def readQuoted (c : Cursor) : Except Fault (List Char × Cursor) :=
  quotedText (c.rest.length + 1) (c.at? '"') c.line false [] false c.step

end LetPrint.Yaml
