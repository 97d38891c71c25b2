import Provision.Text.Unprintable
import Provision.Text.Numeral

/-!
# Quoted text

Text as diagnostics show it: between quotation marks, with a backslash before what would end it
and escapes for what does not print.
-/

namespace Provision.Quoted

/-- A hexadecimal digit, in lower case. -/
def hexDigit (n : Nat) : Char :=
  if n < 10 then Char.ofNat ('0'.toNat + n) else Char.ofNat ('a'.toNat + (n - 10))

/-- The hexadecimal digits of a number, with no leading zero. -/
def hexDigits (n : Nat) : List Char :=
  if n < 16 then [hexDigit n] else hexDigits (n / 16) ++ [hexDigit (n % 16)]

/-- One character inside the quotation marks. -/
def escape (c : Char) : List Char :=
  match c with
  | '"' => ['\\', '"']
  | '\\' => ['\\', '\\']
  | '\n' => ['\\', 'n']
  | '\r' => ['\\', 'r']
  | '\t' => ['\\', 't']
  | '\x00' => ['\\', '0']
  | c => if Unprintable.holds c then '\\' :: 'u' :: '\x7b' :: hexDigits c.toNat ++ ['\x7d'] else [c]

/-- The quoted form of a text. -/
def text (s : String) : String :=
  String.ofList ('"' :: s.toList.flatMap escape ++ ['"'])

/-- The form of something that may be missing. -/
def option (f : α → String) : Option α → String
  | none => "None"
  | some a => "Some(" ++ f a ++ ")"

end Provision.Quoted
