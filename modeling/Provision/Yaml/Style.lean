import Provision.Yaml.Cursor
import Provision.Yaml.Resolution

/-!
# Styles of scalars

How a text is best written: plain if that reads back as the same text, else between single marks,
else between double marks with escapes; several lines as a literal block where that is possible.
-/

namespace Provision.Yaml

/-- How a scalar is written. -/
inductive Style where
  | plain
  | single
  | double
  | literal
  deriving DecidableEq

/-- Whether a character is written as it is. Controls, the mark of byte order and the two last
characters of sixteen bits are not. -/
def isPrintable (c : Char) : Bool :=
  let n := c.toNat
  n == 0x0A || (0x20 ≤ n && n ≤ 0x7E)
    || (0xA0 ≤ n && n != 0xFEFF && n != 0xFFFE && n != 0xFFFF)

/-- The characters that a plain scalar may not begin with. -/
def isLeadingIndicator (c : Char) : Bool := "#,[]\x7b\x7d&*!|>'\"%@\x60".toList.contains c

/-- What can be told of a text by going through it once. -/
structure Analysis where
  /-- Some character is a line break. -/
  multiline : Bool
  /-- The text would be taken for something else in a block. -/
  indicators : Bool
  /-- Some character cannot be written as it is. -/
  special : Bool
  /-- A space follows a line break. -/
  breakSpace : Bool
  /-- A line break follows a space. -/
  spaceBreak : Bool

namespace Analysis

/-- Goes through the characters; `first` says whether none has been passed yet, and `before` is the
last one passed. -/
def go (a : Analysis) (first : Bool) (before : Char) : List Char → Analysis
  | [] => a
  | c :: rest =>
    let blankBefore := first || isBlank before || isBreak before || before == '\x00'
    let blankAfter := match rest with
      | [] => true
      | d :: _ => isBlank d || isBreak d || d == '\x00'
    let indicator :=
      if first then
        isLeadingIndicator c || ((c == '?' || c == ':' || c == '-') && blankAfter)
      else (c == ':' && blankAfter) || (c == '#' && blankBefore)
    go { multiline := a.multiline || isBreak c
         indicators := a.indicators || indicator
         special := a.special || !isPrintable c
         breakSpace := a.breakSpace || (c == ' ' && !first && isBreak before)
         spaceBreak := a.spaceBreak || (isBreak c && !first && before == ' ') } false c rest

/-- What can be told of a text. -/
def ofChars (cs : List Char) : Analysis :=
  let marked := ['-', '-', '-'].isPrefixOf cs || ['.', '.', '.'].isPrefixOf cs
  go ⟨false, marked, false, false, false⟩ true ' ' cs

/-- Whether a space or a line break is at either end of a text. -/
def hasLooseEnd (cs : List Char) : Bool :=
  let loose (c : Char) : Bool := c == ' ' || isBreak c
  cs.head?.any loose || cs.getLast?.any loose

/-- Whether the text may be written plain. -/
def allowsPlain (a : Analysis) (cs : List Char) : Bool :=
  !hasLooseEnd cs && !a.breakSpace && !a.spaceBreak && !a.special && !a.multiline
    && !a.indicators

/-- Whether the text may be written between single marks. -/
def allowsSingle (a : Analysis) : Bool := !a.breakSpace && !a.spaceBreak && !a.special

/-- Whether the text may be written as a block. -/
def allowsBlock (a : Analysis) (cs : List Char) : Bool :=
  !cs.isEmpty && cs.getLast? != some ' ' && !a.spaceBreak && !a.special

end Analysis

/-- The style that a text asks for: single marks for what would not be read as text. -/
def preferredStyle (s : String) : Style :=
  if s.toList.contains '\n' then .literal
  else if isZeroLed s then .single
  else
    match plainMeaning s with
    | .string _ => .plain
    | _ => .single

/-- The style that a text gets; a key may not have several lines. -/
def styleOf (key : Bool) (s : String) : Style :=
  let cs := s.toList
  let a := Analysis.ofChars cs
  let style : Style := if key && a.multiline then .double else preferredStyle s
  let style : Style := match style with
    | .plain => if cs.isEmpty || !a.allowsPlain cs then .single else .plain
    | style => style
  match style with
  | .single => if a.allowsSingle then .single else .double
  | .literal => if key || !a.allowsBlock cs then .double else .literal
  | style => style

end Provision.Yaml
