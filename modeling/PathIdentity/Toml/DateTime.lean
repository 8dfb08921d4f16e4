import PathIdentity.Toml.Blank

/-!
# Dates and times of TOML

A date-time is a date, a time of day, or a date with a time of day and perhaps an offset. Every part
is checked: the month, the day within its month, the hour, the minute, and the second, of which a
minute may have 61.
-/

namespace PathIdentity.Toml

open Reader

/-- Exactly `count` digits, writing a number in a range. -/
def digitsIn (count low high : Nat) : Reader Nat := do
  let n := numberOf 10 (← exactly count isDecimal)
  if low ≤ n ∧ n ≤ high then pure n else failure

/-- Whether a year has a leap day. -/
def isLeapYear (year : Nat) : Bool := year % 4 = 0 && (year % 100 ≠ 0 || year % 400 = 0)

/-- The number of days of a month. -/
def daysOfMonth (year month : Nat) : Nat :=
  if month = 2 then if isLeapYear year then 29 else 28
  else if month = 4 ∨ month = 6 ∨ month = 9 ∨ month = 11 then 30
  else 31

/-- A date. -/
def date : Reader Unit := do
  let year ← digitsIn 4 0 9999
  char '-'
  let month ← digitsIn 2 1 12
  char '-'
  let _ ← digitsIn 2 1 (daysOfMonth year month)

/-- A time of day. -/
def timeOfDay : Reader Unit := do
  let _ ← digitsIn 2 0 23
  char ':'
  let _ ← digitsIn 2 0 59
  char ':'
  let _ ← digitsIn 2 0 60
  let _ ← optional do
    char '.'
    takeWhile1 isDecimal

/-- An offset from universal time. -/
def offset : Reader Unit :=
  (do let _ ← satisfy fun c => c = 'Z' || c = 'z') <|> (do
    let _ ← satisfy fun c => c = '+' || c = '-'
    let _ ← digitsIn 2 0 23
    char ':'
    let _ ← digitsIn 2 0 59)

/-- The parts of a date-time, in order. -/
def dateTimeParts : Reader Unit :=
  (do
    date
    let _ ← optional do
      let _ ← satisfy fun c => c = 'T' || c = 't' || c = ' '
      timeOfDay
      optional offset) <|> timeOfDay

/-- A date-time, as written. -/
def dateTime : Reader String := fun cs => do
  let (_, rest) ← dateTimeParts cs
  return (String.ofList (cs.take (cs.length - rest.length)), rest)

end PathIdentity.Toml
