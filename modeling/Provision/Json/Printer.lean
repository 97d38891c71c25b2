import Provision.Json.Value
import Provision.Binary64.Shortest

/-!
# Written JSON

A value is written on one line without spaces, or spread over lines with an indentation of two.
Text is written as it is, but for quotation marks, backslashes and the controls below the space.
-/

namespace Provision.Json

/-- Positional between a hundred-thousandth and ten to the sixteenth, and a sign before every
exponent. -/
def layout : Binary64.Layout := ⟨-4, 16, "+"⟩

/-- The numeral of a floating point number. -/
def float (x : Binary64) : String := layout.text (fun _ => "null") "null" x

/-- One character of a written text. -/
def escape (c : Char) : List Char :=
  match c with
  | '"' => ['\\', '"']
  | '\\' => ['\\', '\\']
  | '\x08' => ['\\', 'b']
  | '\t' => ['\\', 't']
  | '\n' => ['\\', 'n']
  | '\x0c' => ['\\', 'f']
  | '\r' => ['\\', 'r']
  | c =>
    if c.toNat < 0x20 then
      ['\\', 'u', '0', '0', if c.toNat < 0x10 then '0' else '1', hex (c.toNat % 16)]
    else [c]
where
  /-- A hexadecimal digit in lower case. -/
  hex (n : Nat) : Char :=
    if n < 10 then Char.ofNat ('0'.toNat + n) else Char.ofNat ('a'.toNat + (n - 10))

/-- A written text. -/
def text (s : String) : String := String.ofList ('"' :: s.toList.flatMap escape ++ ['"'])

/-- A written value that is neither a list nor an object. -/
def atom : Value → String
  | .null => "null"
  | .bool b => if b then "true" else "false"
  | .int i => Numeral.ofInt i
  | .float x => float x
  | .string s => text s
  | .list _ => "[]"
  | .object _ => "\x7b\x7d"

mutual

/-- The value on one line. -/
def compact : Value → String
  | .list xs => "[" ++ compactItems xs ++ "]"
  | .object ms => "\x7b" ++ compactMembers ms ++ "\x7d"
  | v => atom v

/-- Items between commas. -/
def compactItems : List Value → String
  | [] => ""
  | [x] => compact x
  | x :: xs => compact x ++ "," ++ compactItems xs

/-- Members between commas. -/
def compactMembers : List (String × Value) → String
  | [] => ""
  | [(k, v)] => text k ++ ":" ++ compact v
  | (k, v) :: ms => text k ++ ":" ++ compact v ++ "," ++ compactMembers ms

end

/-- A new line and the indentation of a depth. -/
def newLine (depth : Nat) : String := "\n" ++ String.ofList (List.replicate (2 * depth) ' ')

mutual

/-- The value over several lines, at a depth. -/
def prettyAt (depth : Nat) : Value → String
  | .list (x :: xs) =>
    "[" ++ newLine (depth + 1) ++ prettyItems (depth + 1) (x :: xs) ++ newLine depth ++ "]"
  | .object ((k, v) :: ms) =>
    "\x7b" ++ newLine (depth + 1) ++ prettyMembers (depth + 1) ((k, v) :: ms) ++ newLine depth
      ++ "\x7d"
  | v => atom v

/-- Items on lines of their own. -/
def prettyItems (depth : Nat) : List Value → String
  | [] => ""
  | [x] => prettyAt depth x
  | x :: xs => prettyAt depth x ++ "," ++ newLine depth ++ prettyItems depth xs

/-- Members on lines of their own. -/
def prettyMembers (depth : Nat) : List (String × Value) → String
  | [] => ""
  | [(k, v)] => text k ++ ": " ++ prettyAt depth v
  | (k, v) :: ms =>
    text k ++ ": " ++ prettyAt depth v ++ "," ++ newLine depth ++ prettyMembers depth ms

end

/-- The value over several lines. -/
def pretty (v : Value) : String := prettyAt 0 v

end Provision.Json
