import Provision.Yaml.Style
import Provision.Json.Printer

/-!
# Written YAML

Lists and mappings are written as blocks, with an indentation of two; a list under a key is not
indented, and what holds nothing is written in brackets. A key that is long or has several lines is
written after a question mark.
-/

namespace Provision.Yaml

/-- A text being written: the characters so far, last first, the column, whether a space has just
been written, and whether the line holds nothing but indentation and marks of items. -/
structure Pen where
  written : List Char
  column : Nat
  spaced : Bool
  indenting : Bool

namespace Pen

/-- The pen at the beginning of a text. -/
def start : Pen := ⟨[], 0, true, true⟩

/-- Writes a character. -/
def put (p : Pen) (c : Char) : Pen := { p with written := c :: p.written, column := p.column + 1 }

/-- Writes characters. -/
def puts (p : Pen) (cs : List Char) : Pen := cs.foldl put p

/-- Begins a new line. -/
def newLine (p : Pen) : Pen := { p with written := '\n' :: p.written, column := 0 }

/-- Writes a line break as it is. -/
def putBreak (p : Pen) (c : Char) : Pen := { p with written := c :: p.written, column := 0 }

/-- Moves to the indentation, on a new line unless the line holds no more than indentation. -/
def toIndent (p : Pen) (indent : Int) : Pen :=
  let column := indent.toNat
  let p := if !p.indenting || column < p.column || (p.column == column && !p.spaced) then p.newLine
    else p
  { p.puts (List.replicate (column - p.column) ' ') with spaced := true, indenting := true }

/-- Writes a mark, after a space if there has to be one. -/
def mark (p : Pen) (text : String) (needsSpace keepsIndenting : Bool) : Pen :=
  let p := if needsSpace && !p.spaced then p.put ' ' else p
  { p.puts text.toList with spaced := false, indenting := p.indenting && keepsIndenting }

/-- Writes a text as it is. -/
def plain (p : Pen) (cs : List Char) : Pen :=
  let p := if !p.spaced && !cs.isEmpty then p.put ' ' else p
  { p.puts cs with spaced := false, indenting := false }

/-- Writes the characters between single marks; `broken` says whether a line has just ended. -/
def singleBody (indent : Int) (broken : Bool) : List Char → Pen → Pen
  | [], p => if broken then p.toIndent indent else p
  | c :: cs, p =>
    if isBreak c then
      let p := if !broken && c == '\n' then p.newLine else p
      singleBody indent true cs { p.putBreak c with indenting := true }
    else
      let p := if broken && c != ' ' then p.toIndent indent else p
      let p := if c == '\'' then p.put '\'' else p
      let q := p.put c
      singleBody indent (broken && c == ' ') cs
        (if c == ' ' then q else { q with indenting := false })

/-- Writes a text between single marks. -/
def single (p : Pen) (indent : Int) (cs : List Char) : Pen :=
  (singleBody indent false cs (p.mark "'" true false)).mark "'" false false

/-- A hexadecimal digit in upper case. -/
def hexDigit (n : Nat) : Char :=
  if n < 10 then Char.ofNat ('0'.toNat + n) else Char.ofNat ('A'.toNat + (n - 10))

/-- The last `width` hexadecimal digits of a number. -/
def hexDigits : Nat → Nat → List Char
  | 0, _ => []
  | width + 1, n => hexDigits width (n / 16) ++ [hexDigit (n % 16)]

/-- The letter of a short escape. -/
def shortEscape? (n : Nat) : Option Char :=
  [(0x00, '0'), (0x07, 'a'), (0x08, 'b'), (0x09, 't'), (0x0A, 'n'), (0x0B, 'v'), (0x0C, 'f'),
   (0x0D, 'r'), (0x1B, 'e'), (0x22, '"'), (0x5C, '\\'), (0x85, 'N'), (0xA0, '_'), (0x2028, 'L'),
   (0x2029, 'P')].lookup n

/-- A character between double marks. -/
def escaped (c : Char) : List Char :=
  let n := c.toNat
  if isPrintable c && !isBreak c && c != '"' && c != '\\' then [c]
  else
    match shortEscape? n with
    | some letter => ['\\', letter]
    | none =>
      if n ≤ 0xFF then '\\' :: 'x' :: hexDigits 2 n
      else if n ≤ 0xFFFF then '\\' :: 'u' :: hexDigits 4 n
      else '\\' :: 'U' :: hexDigits 8 n

/-- Writes a text between double marks. -/
def double (p : Pen) (cs : List Char) : Pen :=
  ((p.mark "\"" true false).puts (cs.flatMap escaped)).mark "\"" false false

/-- What stands after the mark of a literal block: the indentation if the text begins with
something blank, and what becomes of the line breaks at the end unless it is just one. -/
def literalHints (cs : List Char) : String :=
  let indent := match cs with
    | c :: _ => if c == ' ' || isBreak c then "2" else ""
    | [] => ""
  let chomp := match cs.reverse with
    | [] => "-"
    | [c] => if isBreak c then "+" else "-"
    | c :: d :: _ => if !isBreak c then "-" else if isBreak d then "+" else ""
  indent ++ chomp

/-- Writes the lines of a literal block; `broken` says whether a line has just ended. -/
def literalBody (indent : Int) (broken : Bool) : List Char → Pen → Pen
  | [], p => p
  | c :: cs, p =>
    if isBreak c then literalBody indent true cs { p.putBreak c with indenting := true }
    else
      let p := if broken then p.toIndent indent else p
      literalBody indent false cs { p.put c with indenting := false }

/-- Writes a text as a literal block. -/
def literal (p : Pen) (indent : Int) (cs : List Char) : Pen :=
  let p := (p.mark "|" true false).mark (literalHints cs) false false
  literalBody indent true cs { p.newLine with spaced := true, indenting := true }

/-- Writes a text; `indent` is that of what it belongs to. -/
def text (p : Pen) (indent : Int) (key : Bool) (s : String) : Pen :=
  let inner := if indent < 0 then 2 else indent + 2
  let cs := s.toList
  match styleOf key s with
  | .plain => p.plain cs
  | .single => p.single inner cs
  | .double => p.double cs
  | .literal => p.literal inner cs

/-- The indentation inside a block. -/
def inside (indent : Int) : Int := if indent < 0 then 0 else indent + 2

/-- Whether a key is written before its colon on one line. -/
def isSimpleKey (s : String) : Bool := s.utf8ByteSize ≤ 128 && !s.toList.any isBreak

/-- The numeral of a floating point number. -/
def floatText (x : Binary64) : String :=
  let layout : Binary64.Layout := ⟨-4, 16, ""⟩
  layout.text (fun s => if s then "-.inf" else ".inf") ".nan" x

/-- The plain text of a value that is no text, list or object. -/
def atom : Value → String
  | .float x => floatText x
  | v => Json.compact v

/-- Writes a key and its colon. -/
def key (p : Pen) (indent : Int) (s : String) : Pen :=
  let p := p.toIndent indent
  if isSimpleKey s then (p.text indent true s).mark ":" false false
  else (((p.mark "?" true true).text indent false s).toIndent indent).mark ":" true true

mutual

/-- Writes a value; `indent` is that of what it belongs to, and `underKey` says whether that is a
mapping. -/
def value (indent : Int) (underKey : Bool) : Value → Pen → Pen
  | .string s, p => p.text indent false s
  | .list [], p => (p.mark "[" true false).mark "]" false false
  | .list (x :: xs), p =>
    let inner := if 0 ≤ indent && underKey && !p.indenting then indent else inside indent
    items inner (x :: xs) p
  | .object [], p => (p.mark "\x7b" true false).mark "\x7d" false false
  | .object (m :: ms), p => members (inside indent) (m :: ms) p
  | v, p => p.plain (atom v).toList

/-- Writes items on lines of their own. -/
def items (indent : Int) : List Value → Pen → Pen
  | [], p => p
  | x :: xs, p =>
    items indent xs (value indent false x ((p.toIndent indent).mark "-" true true))

/-- Writes members on lines of their own. -/
def members (indent : Int) : List (String × Value) → Pen → Pen
  | [], p => p
  | (k, v) :: ms, p => members indent ms (value indent true v (p.key indent k))

end

end Pen

/-- The text of a document that holds a value. -/
def print (v : Value) : String :=
  String.ofList ((Pen.value (-1) false v .start).toIndent (-1)).written.reverse

end Provision.Yaml
