import LetPrint.Text.Bytes

/-!
# Timestamps

A timestamp is a date, `2001-12-14`, which a time of day may follow: after a `T` or `t` with a zone,
`2001-12-14t21:59:43.10-05:00`, or after spaces without one, `2001-12-14 21:59:43.10`.  The year has
four digits, and every other number of the date and the time has one or two.

Each reader takes its part from the front of a text and gives what follows that part.
-/

namespace LetPrint.Yaml.Timestamp

open Text

/-- The number of days of a month. -/
def daysOf (year month : Nat) : Nat :=
  if month = 2 then
    if year % 4 = 0 && (year % 100 != 0 || year % 400 = 0) then 29 else 28
  else if month ∈ [4, 6, 9, 11] then 30
  else 31

/-- What follows the byte `b`. -/
def after? (b : Char) : Bytes → Option Bytes
  | [] => none
  | first :: rest => if first == byte b then some rest else none

/-- The number of one or two digits; a second digit always belongs to it. -/
def number? (text : Bytes) : Option (Nat × Bytes) :=
  let digits := (text.take 2).takeWhile isDigit
  if digits.isEmpty then none else some (decimalValue digits, text.drop digits.length)

/-- The number of exactly two digits. -/
def pair? : Bytes → Option (Nat × Bytes)
  | a :: b :: rest => if isDigit a && isDigit b then some (decimalValue [a, b], rest) else none
  | _ => none

/-- A year, a month and a day of that month, with `-` between them. -/
def date? (text : Bytes) : Option Bytes := do
  let year := text.takeWhile isDigit
  guard (year.length = 4)
  let rest ← after? '-' (text.drop 4)
  let (month, rest) ← number? rest
  guard (1 ≤ month ∧ month ≤ 12)
  let rest ← after? '-' rest
  let (day, rest) ← number? rest
  guard (1 ≤ day ∧ day ≤ daysOf (decimalValue year) month)
  return rest

/-- What follows a fraction of a second: a point or a comma and digits.  It may be missing. -/
def afterFraction (text : Bytes) : Bytes :=
  match text with
  | [] => []
  | point :: rest =>
    if (point == byte '.' || point == byte ',') && rest.head?.any isDigit then rest.dropWhile isDigit
    else text

/-- An hour, a minute and a second, with `:` between them. -/
def clock? (text : Bytes) : Option Bytes := do
  let (hour, rest) ← number? text
  guard (hour < 24)
  let rest ← after? ':' rest
  let (minute, rest) ← number? rest
  guard (minute < 60)
  let rest ← after? ':' rest
  let (second, rest) ← number? rest
  guard (second < 60)
  return afterFraction rest

/-- The zone `Z`, or a sign with hours and minutes; a whole day and a whole hour are in range. -/
def zone? : Bytes → Option Bytes
  | [] => none
  | sign :: rest =>
    if sign == byte 'Z' then some rest
    else do
      guard (sign == byte '+' || sign == byte '-')
      let (hours, rest) ← pair? rest
      guard (hours ≤ 24)
      let rest ← after? ':' rest
      let (minutes, rest) ← pair? rest
      guard (minutes ≤ 60)
      return rest

end LetPrint.Yaml.Timestamp

namespace LetPrint.Yaml

open Text

/-- Whether a text is a timestamp as a whole. -/
def isTimestamp (text : Bytes) : Bool :=
  match Timestamp.date? text with
  | none => false
  | some [] => true
  | some (mark :: time) =>
    if mark == byte 'T' || mark == byte 't' then
      (Timestamp.clock? time).bind Timestamp.zone? == some []
    else if mark == byte ' ' then
      Timestamp.clock? (time.dropWhile (· == byte ' ')) == some []
    else false

end LetPrint.Yaml
