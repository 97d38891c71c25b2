import Provision.Text.Numeral

/-!
# Instants

Points in time on the calendar of universal time, to the nanosecond. A leap second is the second
before it, prolonged: its nanoseconds run on from a thousand million.
-/

namespace Provision

/-- A point in time: whole seconds from the beginning of 1970, and the nanoseconds after them. -/
structure Instant where
  seconds : Int
  nanos : Nat
  deriving DecidableEq

namespace Calendar

/-- Whether a year has a leap day. -/
def isLeap (year : Int) : Bool :=
  year % 4 == 0 && (year % 100 != 0 || year % 400 == 0)

/-- The days of the months of a year. -/
def monthLengths (year : Int) : List Nat :=
  [31, if isLeap year then 29 else 28, 31, 30, 31, 30, 31, 31, 30, 31, 30, 31]

/-- The days of all years before `year`, counted from the year zero of the calendar. -/
def daysBefore (year : Int) : Int :=
  let y := year - 1
  365 * y + y / 4 - y / 100 + y / 400

/-- The first day of a year, counted from the beginning of 1970. -/
def firstDay (year : Int) : Int := daysBefore year - daysBefore 1970

/-- The day that a date names, if there is such a date. -/
def day? (year : Int) (month day : Nat) : Option Int :=
  if month = 0 then none
  else
    let lengths := monthLengths year
    match lengths[month - 1]? with
    | none => none
    | some length =>
      if 1 ≤ day ∧ day ≤ length then
        some (firstDay year + ((lengths.take (month - 1)).foldl (· + ·) 0 + (day - 1) : Nat))
      else none

/-- The month and the day of the month that a day of the year falls on, `month` being that of the
first of `lengths`. -/
def inMonth (month : Nat) : List Nat → Nat → Nat × Nat
  | [], n => (month, n + 1)
  | length :: lengths, n =>
    if n < length then (month, n + 1) else inMonth (month + 1) lengths (n - length)

/-- The year that a day falls in. -/
def yearOf (day : Int) : Int :=
  let guess := 1970 + day * 400 / 146097
  if firstDay (guess + 1) ≤ day then guess + 1
  else if firstDay guess ≤ day then guess
  else guess - 1

/-- The year, the month and the day of the month of a day. -/
def date (day : Int) : Int × Nat × Nat :=
  let year := yearOf day
  let (month, d) := inMonth 1 (monthLengths year) (day - firstDay year).toNat
  (year, month, d)

end Calendar

namespace Instant

/-- Whether an instant is not after another. -/
def notAfter (a b : Instant) : Bool :=
  a.seconds < b.seconds || (a.seconds == b.seconds && a.nanos ≤ b.nanos)

/-- The instant that many seconds earlier. A leap second counts as the second that follows it when
one goes back from it, and as the second before it when one goes on from it. -/
def earlier (t : Instant) (seconds : Int) : Instant :=
  if t.nanos < 1000000000 || seconds == 0 then { t with seconds := t.seconds - seconds }
  else if 0 < seconds then ⟨t.seconds + 1 - seconds, t.nanos - 1000000000⟩
  else ⟨t.seconds - seconds, t.nanos - 1000000000⟩

/-- The instant of a date and a time of day, `offset` seconds ahead of universal time. A sixtieth
second is a leap second. -/
def ofDateTime? (year : Int) (month day hour minute second nanos : Nat) (offset : Int) :
    Option Instant := do
  if ¬ (-262143 ≤ year ∧ year ≤ 262142) then none
  let d ← Calendar.day? year month day
  if 23 < hour ∨ 59 < minute ∨ 60 < second then none
  let leap := second == 60
  let time := 3600 * hour + 60 * minute + (if leap then 59 else second)
  some ⟨86400 * d + (time : Nat) - offset, if leap then nanos + 1000000000 else nanos⟩

/-- A number with leading zeros up to `width` digits. -/
def padded (width n : Nat) : String :=
  let ds := Numeral.digits n
  String.ofList (List.replicate (width - ds.length) '0' ++ ds)

/-- A year has four digits; one that needs more or is negative also has a sign. -/
def yearText (year : Int) : String :=
  if 0 ≤ year ∧ year ≤ 9999 then padded 4 year.toNat
  else if year < 0 then "-" ++ padded 4 year.natAbs
  else "+" ++ padded 4 year.natAbs

/-- A fraction of a second, to milliseconds, microseconds or nanoseconds as it needs. -/
def fractionText (nanos : Nat) : String :=
  if nanos = 0 then ""
  else if nanos % 1000000 = 0 then "." ++ padded 3 (nanos / 1000000)
  else if nanos % 1000 = 0 then "." ++ padded 6 (nanos / 1000)
  else "." ++ padded 9 nanos

/-- The date and the time of day in universal time. -/
def text (t : Instant) : String :=
  let (year, month, day) := Calendar.date (t.seconds / 86400)
  let time := (t.seconds % 86400).toNat
  let second := time % 60 + t.nanos / 1000000000
  yearText year ++ "-" ++ padded 2 month ++ "-" ++ padded 2 day ++ "T" ++ padded 2 (time / 3600)
    ++ ":" ++ padded 2 (time / 60 % 60) ++ ":" ++ padded 2 second
    ++ fractionText (t.nanos % 1000000000) ++ "Z"

end Instant

end Provision
