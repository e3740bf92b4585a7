import LetPrint.Yaml.Tag

/-!
# Faults of YAML texts

A fault is a problem and two lines: that of the construct which is not complete, and that of the place
where the problem shows.  The message names the first of the two that is not the first line of the
text; if both are, it names none.
-/

namespace LetPrint.Yaml

open Text

/-- What is wrong with a text. -/
inductive Problem where
  /-- A byte that starts no character. -/
  | leadingByte
  /-- A character that the end of the text cuts off. -/
  | incompleteCharacter
  /-- A byte that does not continue the character before it. -/
  | trailingByte
  /-- A character in more bytes than it needs. -/
  | overlongCharacter
  /-- A number that no character has. -/
  | noCharacter
  /-- A 16-bit unit that the end of the text cuts off. -/
  | incompleteUnit
  /-- The second half of a pair of units without the first. -/
  | loneSecondHalf
  /-- A pair of units that the end of the text cuts off. -/
  | incompletePair
  /-- The first half of a pair of units without the second. -/
  | loneFirstHalf
  | control
  /-- A `:` where no mapping may start. -/
  | mappingValue
  /-- A `?` where no mapping may start. -/
  | mappingKey
  /-- A `-` where no sequence may start. -/
  | sequenceEntry
  | startless
  /-- A tab among the blanks that tell the column of a line. -/
  | tabIndent
  /-- A tab among the blanks that tell the column of a block scalar. -/
  | tabInBlock
  /-- An entry of a mapping without its `:`. -/
  | keyWithoutColon
  | tooDeep
  /-- A quoted scalar without an end. -/
  | unclosedQuote
  /-- A document marker inside a quoted scalar. -/
  | markerInQuote
  | unknownEscape
  | escapeDigits
  | escapeCharacter
  /-- A block scalar that is indented by no column. -/
  | zeroIndent
  /-- Something behind the header of a block scalar or behind a directive. -/
  | expectedLineEnd
  /-- An anchor or an alias without a name. -/
  | expectedName
  | tagBang
  | tagUri
  | tagClose
  /-- Something that follows a tag without a blank. -/
  | tagEnd
  | tagBlank
  | uriEscape
  | directiveName
  | directiveNameEnd
  | unknownDirective
  | versionNumber
  | longVersionNumber
  | versionPoint
  /-- A place where a node must stand and none does. -/
  | noNode
  | unclosedSequence
  | unclosedMapping
  | expectedDash
  | expectedKey
  | expectedDocument
  | repeatedVersion
  | otherVersion
  | repeatedHandle
  | unknownHandle
  /-- An alias of a name that no anchor has given. -/
  | unknownAnchor (name : Bytes)
  /-- A scalar whose text does not have the tag that is written before it. -/
  | mistagged (found wanted : Tag) (text : Bytes)
  | notBase64
  /-- A merge of something that is not made of mappings. -/
  | mergeValue
  /-- A merge of a mapping into itself, by the name of its anchor. -/
  | mergeIntoItself (name : Bytes)
  /-- A document that is small beside what its aliases stand for. -/
  | tooManyAliases
  deriving DecidableEq, Repr, Inhabited

/-- The wording of a problem. -/
def Problem.text : Problem → Bytes
  | leadingByte => utf8 "invalid leading UTF-8 octet"
  | incompleteCharacter => utf8 "incomplete UTF-8 octet sequence"
  | trailingByte => utf8 "invalid trailing UTF-8 octet"
  | overlongCharacter => utf8 "invalid length of a UTF-8 sequence"
  | noCharacter => utf8 "invalid Unicode character"
  | incompleteUnit => utf8 "incomplete UTF-16 character"
  | loneSecondHalf => utf8 "unexpected low surrogate area"
  | incompletePair => utf8 "incomplete UTF-16 surrogate pair"
  | loneFirstHalf => utf8 "expected low surrogate area"
  | control => utf8 "control characters are not allowed"
  | mappingValue => utf8 "mapping values are not allowed in this context"
  | mappingKey => utf8 "mapping keys are not allowed in this context"
  | sequenceEntry => utf8 "block sequence entries are not allowed in this context"
  | startless => utf8 "found character that cannot start any token"
  | tabIndent => utf8 "found a tab character that violates indentation"
  | tabInBlock => utf8 "found a tab character where an indentation space is expected"
  | keyWithoutColon => utf8 "could not find expected ':'"
  | tooDeep => utf8 "exceeded max depth of 10000"
  | unclosedQuote => utf8 "found unexpected end of stream"
  | markerInQuote => utf8 "found unexpected document indicator"
  | unknownEscape => utf8 "found unknown escape character"
  | escapeDigits => utf8 "did not find expected hexdecimal number"
  | escapeCharacter => utf8 "found invalid Unicode character escape code"
  | zeroIndent => utf8 "found an indentation indicator equal to 0"
  | expectedLineEnd => utf8 "did not find expected comment or line break"
  | expectedName => utf8 "did not find expected alphabetic or numeric character"
  | tagBang => utf8 "did not find expected '!'"
  | tagUri => utf8 "did not find expected tag URI"
  | tagClose => utf8 "did not find the expected '>'"
  | tagEnd => utf8 "did not find expected whitespace or line break"
  | tagBlank => utf8 "did not find expected whitespace"
  | uriEscape => utf8 "did not find URI escaped octet"
  | directiveName => utf8 "could not find expected directive name"
  | directiveNameEnd => utf8 "found unexpected non-alphabetical character"
  | unknownDirective => utf8 "found unknown directive name"
  | versionNumber => utf8 "did not find expected version number"
  | longVersionNumber => utf8 "found extremely long version number"
  | versionPoint => utf8 "did not find expected digit or '.' character"
  | noNode => utf8 "did not find expected node content"
  | unclosedSequence => utf8 "did not find expected ',' or ']'"
  | unclosedMapping => utf8 "did not find expected ',' or '\x7d'"
  | expectedDash => utf8 "did not find expected '-' indicator"
  | expectedKey => utf8 "did not find expected key"
  | expectedDocument => utf8 "did not find expected <document start>"
  | repeatedVersion => utf8 "found duplicate %YAML directive"
  | otherVersion => utf8 "found incompatible YAML document"
  | repeatedHandle => utf8 "found duplicate %TAG directive"
  | unknownHandle => utf8 "found undefined tag handle"
  | unknownAnchor name => utf8 "unknown anchor '" ++ name ++ utf8 "' referenced"
  | mistagged found wanted text =>
    utf8 "cannot decode " ++ found.name ++ utf8 " `" ++ text ++ utf8 "` as a " ++ wanted.name
  | notBase64 => utf8 "!!binary value contains invalid base64 data"
  | mergeIntoItself name => utf8 "anchor '" ++ name ++ utf8 "' value contains itself"
  | mergeValue => utf8 "map merge requires map or sequence of maps as the value"
  | tooManyAliases => utf8 "document contains excessive aliasing"

/-- Whether a problem lies in the order of well-formed tokens.  The line of such a problem is counted
from 0. -/
def Problem.isStructural : Problem → Bool
  | noNode | unclosedSequence | unclosedMapping | expectedDash | expectedKey | expectedDocument
  | repeatedVersion | otherVersion | repeatedHandle | unknownHandle => true
  | _ => false

/-- Why a text is not read.  Lines count from 1. -/
structure Fault where
  problem : Problem
  /-- The line where the construct starts that is not complete. -/
  start : Nat := 1
  /-- The line where the problem shows. -/
  place : Nat := 1
  deriving DecidableEq, Repr, Inhabited

namespace Fault

/-- The wording of a fault. -/
def message (f : Fault) : Bytes :=
  let line := if f.start = 1 then f.place else f.start
  let shown := if f.problem.isStructural then line - 1 else line
  utf8 "yaml: " ++ (if line = 1 then [] else utf8 "line " ++ decimal shown ++ utf8 ": ")
    ++ f.problem.text

end Fault

end LetPrint.Yaml
