import BazziteTower.Lib.Text

/-!
# Time stamps

Moments in microseconds, the Gregorian calendar, and the stamps
`2026-01-31T12:00:00Z` that are written and read with the format
`%Y-%m-%dT%H:%M:%SZ`.  Days are counted from 1 March of the year 0, so that the
leap day is the last day of a counted year.
-/

/-- Microseconds since the beginning of 1 March of the year 0. -/
abbrev Moment := ℕ

namespace Calendar

def microsPerSecond : ℕ := 1000000

/-- A date and a time of day. -/
structure Fields where
  year : ℕ
  month : ℕ
  day : ℕ
  hour : ℕ
  minute : ℕ
  second : ℕ
  deriving DecidableEq, Repr

/-- The calendar fields of a moment; the fraction of the second is dropped. -/
def fields (t : Moment) : Fields :=
  let seconds := t / microsPerSecond
  let days := seconds / 86400
  let dayOfEra := days % 146097
  let yearOfEra := (dayOfEra - dayOfEra / 1460 + dayOfEra / 36524 - dayOfEra / 146096) / 365
  let dayOfYear := dayOfEra - (365 * yearOfEra + yearOfEra / 4 - yearOfEra / 100)
  let shifted := (5 * dayOfYear + 2) / 153
  let year := yearOfEra + days / 146097 * 400
  { year := if shifted < 10 then year else year + 1
    month := if shifted < 10 then shifted + 3 else shifted - 9
    day := dayOfYear - (153 * shifted + 2) / 5 + 1
    hour := seconds % 86400 / 3600
    minute := seconds % 3600 / 60
    second := seconds % 60 }

/-- The moment of calendar fields. -/
def moment (f : Fields) : Moment :=
  let year := if f.month ≤ 2 then f.year - 1 else f.year
  let dayOfYear := (153 * ((f.month + 9) % 12) + 2) / 5 + (f.day - 1)
  let dayOfEra := year % 400 * 365 + year % 400 / 4 - year % 400 / 100 + dayOfYear
  let days := year / 400 * 146097 + dayOfEra
  (((days * 24 + f.hour) * 60 + f.minute) * 60 + f.second) * microsPerSecond

def leapYear (year : ℕ) : Bool := year % 4 = 0 && (year % 100 ≠ 0 || year % 400 = 0)

def daysInMonth (year month : ℕ) : ℕ :=
  if month = 2 then if leapYear year then 29 else 28
  else if month = 4 ∨ month = 6 ∨ month = 9 ∨ month = 11 then 30
  else 31

/-- A number in at least `width` digits. -/
def padded (width n : ℕ) : Text :=
  List.replicate (width - (Nat.toDigits 10 n).length) '0' ++ Nat.toDigits 10 n

/-- `strftime("%Y-%m-%dT%H:%M:%SZ")`. -/
def stamp (t : Moment) : Text :=
  let f := fields t
  padded 4 f.year ++ '-' :: padded 2 f.month ++ '-' :: padded 2 f.day ++ 'T' ::
    padded 2 f.hour ++ ':' :: padded 2 f.minute ++ ':' :: padded 2 f.second ++ ['Z']

/-- `strftime("%Y%m%dT%H%M%SZ")`. -/
def compactStamp (t : Moment) : Text := (stamp t).filter fun c => c ≠ '-' && c ≠ ':'

/-- The text before a separator, and the text behind it; letters match in either case. -/
def breakAt (separator : Char) (cs : Text) : Option (Text × Text) :=
  let head := cs.takeWhile fun c => c.toUpper ≠ separator
  match cs.drop head.length with
  | [] => none
  | _ :: rest => some (head, rest)

/-- A number of at most `width` digits in a range. -/
def number (width low high : ℕ) (cs : Text) : Option ℕ :=
  if cs ≠ [] ∧ cs.length ≤ width ∧ cs.all Char.isDigit then
    let n := Nat.ofDigitChars 10 cs 0
    if low ≤ n ∧ n ≤ high then some n else none
  else none

/-- A day of the month, which may have a space in place of a leading zero. -/
def dayNumber : Text → Option ℕ
  | [' ', c] => number 1 1 9 [c]
  | cs => number 2 1 31 cs

/-- `strptime(text, "%Y-%m-%dT%H:%M:%SZ")`; `none` is its `ValueError`. -/
def parseStamp (cs : Text) : Option Moment := do
  let (year, cs) ← breakAt '-' cs
  let (month, cs) ← breakAt '-' cs
  let (day, cs) ← breakAt 'T' cs
  let (hour, cs) ← breakAt ':' cs
  let (minute, cs) ← breakAt ':' cs
  let (second, cs) ← breakAt 'Z' cs
  guard (cs = [] ∧ year.length = 4)
  let f : Fields :=
    { year := ← number 4 1 9999 year, month := ← number 2 1 12 month, day := ← dayNumber day,
      hour := ← number 2 0 23 hour, minute := ← number 2 0 59 minute,
      second := ← number 2 0 59 second }
  guard (f.day ≤ daysInMonth f.year f.month)
  return moment f

example : (parseStamp "2026-02-28T23:59:07Z".toList).map stamp =
    some "2026-02-28T23:59:07Z".toList := by
  decide +kernel

end Calendar
