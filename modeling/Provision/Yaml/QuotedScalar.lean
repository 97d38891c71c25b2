import Provision.Yaml.Cursor

/-!
# Quoted scalars

A scalar between quotation marks may hold anything. Line breaks in it are folded. Between single
marks, only the mark itself is written twice; between double marks, a backslash begins an escape.
-/

namespace Provision.Yaml.QuotedScalar

/-- What an escaped character stands for. -/
inductive Escape where
  | char (c : Char)
  /-- The number of hexadecimal digits that follow. -/
  | digits (n : Nat)

/-- The escape that a character after a backslash begins. -/
def escape? (c : Char) : Option Escape :=
  match c with
  | '0' => some (.char '\x00')
  | 'a' => some (.char '\x07')
  | 'b' => some (.char '\x08')
  | 't' => some (.char '\t')
  | '\t' => some (.char '\t')
  | 'n' => some (.char '\n')
  | 'v' => some (.char '\x0b')
  | 'f' => some (.char '\x0c')
  | 'r' => some (.char '\r')
  | 'e' => some (.char '\x1b')
  | ' ' => some (.char ' ')
  | '"' => some (.char '"')
  | '/' => some (.char '/')
  | '\\' => some (.char '\\')
  | 'N' => some (.char '\u0085')
  | '_' => some (.char '\u00a0')
  | 'L' => some (.char '\u2028')
  | 'P' => some (.char '\u2029')
  | 'x' => some (.digits 2)
  | 'u' => some (.digits 4)
  | 'U' => some (.digits 8)
  | _ => none

/-- The value of a hexadecimal digit in either case. -/
def hexValue? (c : Char) : Option Nat :=
  if c.isDigit then some (c.toNat - '0'.toNat)
  else if 'a' ≤ c ∧ c ≤ 'f' then some (c.toNat - 'a'.toNat + 10)
  else if 'A' ≤ c ∧ c ≤ 'F' then some (c.toNat - 'A'.toNat + 10)
  else none

/-- The character of a code point, if it is one. -/
def character? (n : Nat) : Option Char := if n.isValidChar then some (Char.ofNat n) else none

/-- What the reader is in the middle of. -/
inductive Mode where
  | text
  /-- After a backslash. -/
  | escape
  /-- Inside an escape, with so many digits to come. -/
  | code (left value : Nat)

/-- Reads on. `gap` is what stands between the last word and here; what has been read is kept last
first. -/
def scan (single : Bool) (read : List Char) (gap : Gap) : Mode → Place → List Char → Option Scanned
  | _, _, [] => none
  | .code left value, p, c :: rest => do
    let h ← hexValue? c
    let value := 16 * value + h
    if left ≤ 1 then
      let d ← character? value
      scan single (d :: read) .none .text (p.right 1) rest
    else scan single read .none (.code (left - 1) value) (p.right 1) rest
  | .escape, p, c :: rest =>
    if isBreak c then
      match c, rest with
      | '\r', '\n' :: rest => scan single read (.lines none []) .text (p.down 2) rest
      | _, rest => scan single read (.lines none []) .text (p.down 1) rest
    else
      match escape? c with
      | some (.char d) => scan single (d :: read) .none .text (p.right 1) rest
      | some (.digits n) => scan single read .none (.code n 0) (p.right 1) rest
      | none => none
  | .text, p, c :: rest =>
    if isBlank c then scan single read (gap.blank c) .text (p.right 1) rest
    else if isBreak c then
      match c, rest with
      | '\r', '\n' :: rest => scan single read (gap.newLine '\n') .text (p.down 2) rest
      | c, rest => scan single read (gap.newLine c) .text (p.down 1) rest
    else if atDocumentMark p (c :: rest) then none
    else
      let read := gap.folded ++ read
      if single && c == '\'' then
        match rest with
        | '\'' :: rest => scan single ('\'' :: read) .none .text (p.right 2) rest
        | rest => some ⟨String.ofList read.reverse, false, ⟨p.right 1, rest⟩⟩
      else if !single && c == '"' then
        some ⟨String.ofList read.reverse, false, ⟨p.right 1, rest⟩⟩
      else if !single && c == '\\' then scan single read .none .escape (p.right 1) rest
      else scan single (c :: read) .none .text (p.right 1) rest

end Provision.Yaml.QuotedScalar
