import FlatSchema.Toml.Scan

/-!
Dates and times of TOML: a date, a date with a time, or a time alone. A date must be one of the
calendar; an hour ends at 59 minutes, and a minute at 60 seconds, so that leap seconds have a place.
-/

namespace FlatSchema.Toml

/-- The number that some digits write. -/
def number (digits : List Char) : Nat := Nat.ofDigitChars 10 digits 0

/-- Two digits whose number lies between two bounds. -/
def twoDigits (least greatest : Nat) : Scan Nat := do
  let n := number (← Scan.exactly 2 Char.isDigit)
  if least ≤ n && n ≤ greatest then return n else Scan.fail

/-- A year with a day more. -/
def isLeapYear (year : Nat) : Bool := year % 4 == 0 && (year % 100 != 0 || year % 400 == 0)

/-- How many days a month has. -/
def daysIn (year month : Nat) : Nat :=
  if month = 2 then if isLeapYear year then 29 else 28
  else if [4, 6, 9, 11].contains month then 30
  else 31

/-- A date, `1979-05-27`. -/
def date : Scan Unit := do
  let year := number (← Scan.exactly 4 Char.isDigit)
  Scan.char '-'
  let month ← twoDigits 1 12
  Scan.char '-'
  let _ ← twoDigits 1 (daysIn year month)

/-- A time, `07:32:00.5`. -/
def time : Scan Unit := do
  let _ ← twoDigits 0 23
  Scan.char ':'
  let _ ← twoDigits 0 59
  Scan.char ':'
  let _ ← twoDigits 0 60
  let _ ← Scan.optional (do Scan.char '.'; let _ ← Scan.many₁ Char.isDigit)

/-- How far a time is from universal time, `Z` or `+01:00`. -/
def offset : Scan Unit :=
  (do let _ ← Scan.one fun c => c == 'Z' || c == 'z') <|> do
    let _ ← Scan.one fun c => c == '+' || c == '-'
    let _ ← twoDigits 0 23
    Scan.char ':'
    let _ ← twoDigits 0 59

/-- A date, with a time and an offset if they follow. -/
def dateWithTime : Scan Unit := do
  date
  let _ ← Scan.optional do
    let _ ← Scan.one fun c => c == 'T' || c == 't' || c == ' '
    time
    let _ ← Scan.optional offset

/-- A date, a time, or both. -/
def moment : Scan Unit := dateWithTime <|> time

end FlatSchema.Toml
