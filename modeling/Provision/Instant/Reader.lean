import Provision.Instant
import Provision.Text.Blank

/-!
# Read instants

An instant is written as a date, a time of day and an offset from universal time. The strict form
leaves nothing to choice but the letter between date and time; the lenient one allows blanks and a
year of any length; the form without an offset is in universal time.
-/

namespace Provision.Instant

/-- A number of at least `least` and at most `most` digits, and what follows it. -/
def number? (least most : Nat) (cs : List Char) : Option (Nat × List Char) :=
  let ds := (cs.take most).takeWhile Char.isDigit
  if least ≤ ds.length then some (Numeral.value ds, cs.drop ds.length) else none

/-- What follows a character. -/
def skip? (c : Char) : List Char → Option (List Char)
  | [] => none
  | d :: cs => if d = c then some cs else none

/-- What follows a letter or a blank between date and time. -/
def skipSeparator? : List Char → Option (List Char)
  | 'T' :: cs | 't' :: cs | ' ' :: cs => some cs
  | _ => none

/-- The nanoseconds of a fraction, if there is one; digits past the ninth do not count. -/
def fraction? : List Char → Option (Nat × List Char)
  | '.' :: cs => do
    let (n, rest) ← number? 1 9 cs
    some (n * Nat.pow 10 (9 - (cs.length - rest.length)), rest.dropWhile Char.isDigit)
  | cs => some (0, cs)

/-- The sign of an offset; a minus may also be the mathematical one. -/
def sign? : List Char → Option (Int × List Char)
  | '+' :: cs => some (1, cs)
  | '-' :: cs => some (-1, cs)
  | '\u2212' :: cs => some (-1, cs)
  | _ => none

/-- An offset in seconds; `between` passes what separates hours and minutes. -/
def offset? (between : List Char → Option (List Char)) : List Char → Option (Int × List Char)
  | 'Z' :: cs | 'z' :: cs => some (0, cs)
  | cs => do
    let (sign, cs) ← sign? cs
    let (hours, cs) ← number? 2 2 cs
    let cs ← between cs
    let (minutes, cs) ← number? 2 2 cs
    if 59 < minutes then none else some (sign * (3600 * hours + 60 * minutes : Nat), cs)

/-- The instant that a text writes in the strict form. -/
def ofStrict? (text : String) : Option Instant := do
  let (year, cs) ← number? 4 4 text.toList
  let cs ← skip? '-' cs
  let (month, cs) ← number? 2 2 cs
  let cs ← skip? '-' cs
  let (day, cs) ← number? 2 2 cs
  let cs ← skipSeparator? cs
  let (hour, cs) ← number? 2 2 cs
  let cs ← skip? ':' cs
  let (minute, cs) ← number? 2 2 cs
  let cs ← skip? ':' cs
  let (second, cs) ← number? 2 2 cs
  let (nanos, cs) ← fraction? cs
  let (offset, cs) ← offset? (skip? ':') cs
  if 86400 ≤ offset.natAbs ∨ cs ≠ [] then none
  else ofDateTime? year month day hour minute second nanos offset

/-- What follows blanks. -/
def skipBlanks (cs : List Char) : List Char := cs.dropWhile Blank.holds

/-- A year after blanks: four digits at most, or any number of them after a sign. -/
def year? (cs : List Char) : Option (Int × List Char) :=
  match skipBlanks cs with
  | '-' :: cs => (number? 1 cs.length cs).map fun (n, rest) => (-(n : Int), rest)
  | '+' :: cs => (number? 1 cs.length cs).map fun (n, rest) => ((n : Int), rest)
  | cs => (number? 1 4 cs).map fun (n, rest) => ((n : Int), rest)

/-- One or two digits after blanks. -/
def part? (cs : List Char) : Option (Nat × List Char) := number? 1 2 (skipBlanks cs)

/-- What follows blanks and a character, the blanks only where `lenient`. -/
def mark? (lenient : Bool) (c : Char) (cs : List Char) : Option (List Char) :=
  skip? c (if lenient then skipBlanks cs else cs)

/-- A date and a time of day, with what follows them. -/
structure LocalTime where
  year : Int
  month : Nat
  day : Nat
  hour : Nat
  minute : Nat
  second : Nat
  nanos : Nat
  rest : List Char

/-- A date and a time of day of parts of any length, with `between` in the middle. -/
def localTime? (lenient : Bool) (between : List Char → Option (List Char)) (cs : List Char) :
    Option LocalTime := do
  let (year, cs) ← year? cs
  let cs ← mark? lenient '-' cs
  let (month, cs) ← part? cs
  let cs ← mark? lenient '-' cs
  let (day, cs) ← part? cs
  let cs ← between cs
  let (hour, cs) ← part? cs
  let cs ← mark? lenient ':' cs
  let (minute, cs) ← part? cs
  let cs ← mark? lenient ':' cs
  let (second, cs) ← part? cs
  let (nanos, rest) ← fraction? cs
  some ⟨year, month, day, hour, minute, second, nanos, rest⟩

/-- The instant of a date and a time of day that are `offset` seconds ahead. -/
def LocalTime.at? (t : LocalTime) (offset : Int) : Option Instant :=
  ofDateTime? t.year t.month t.day t.hour t.minute t.second t.nanos offset

/-- The offset at the end of the lenient form: it may also be the name of universal time. -/
def lenientOffset? (cs : List Char) : Option (Int × List Char) :=
  let cs := skipBlanks cs
  if (cs.take 3).map Char.toUpper = ['U', 'T', 'C'] then some (0, cs.drop 3)
  else offset? (fun cs => some (cs.dropWhile fun c => c = ':' || Blank.holds c)) cs

/-- The instant that a text writes in the lenient form. -/
def ofLenient? (text : String) : Option Instant := do
  let t ← localTime? true skipSeparator? text.toList
  let (offset, rest) ← lenientOffset? t.rest
  if 86400 ≤ offset.natAbs ∨ skipBlanks rest ≠ [] then none else t.at? offset

/-- The instant that a text writes in the strict form or without an offset. -/
def ofTimestamp? (text : String) : Option Instant :=
  match ofStrict? text with
  | some t => some t
  | none => do
    let t ← localTime? false (skip? 'T') text.toList
    if t.rest = [] then t.at? 0 else none

end Provision.Instant
