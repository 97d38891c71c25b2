import Provision.Yaml.Cursor

/-!
# Block scalars

A scalar of whole lines, all indented alike. It is literal, or folded: a single line break between
two lines that begin with no blank becomes a space. What happens to the line breaks at its end is
said up front.
-/

namespace Provision.Yaml.BlockScalar

/-- What becomes of the line breaks at the end: one stays, all stay, or none. -/
inductive Chomping where
  | clip
  | keep
  | strip

/-- The line breaks between two lines, and whether folding may join them. Characters are kept last
first. -/
structure Between where
  first : Option Char
  more : List Char
  /-- Whether the line before begins with a blank. -/
  blankBefore : Bool

/-- What is put between two lines, last first. -/
def Between.joined (literal blankAfter : Bool) (b : Between) : List Char :=
  let first : List Char :=
    if !literal && b.first == some '\n' && !b.blankBefore && !blankAfter then
      if b.more.isEmpty then [' '] else []
    else b.first.toList
  b.more ++ first

/-- What is left at the end, last first. -/
def Between.chomped (chomping : Chomping) (b : Between) : List Char :=
  match chomping with
  | .strip => []
  | .clip => b.first.toList
  | .keep => b.more ++ b.first.toList

/-- Where the reader is: before the first character of a line that is no indentation, or after. -/
inductive Mode where
  /-- The indentation, if known; the widest indentation so far if not. -/
  | indentation (indent : Option Nat) (widest : Nat)
  | line (indent : Nat)

/-- The indentation that the first line settles: its own, and at least one more than that of what
the scalar belongs to. -/
def settled (parent : Int) (widest : Nat) : Nat := max widest (max (parent + 1) 1).toNat

/-- Reads on. `parent` is the indentation of what the scalar belongs to; what has been read is kept
last first. -/
def scan (literal : Bool) (chomping : Chomping) (parent : Int) (read : List Char) (b : Between) :
    Mode → Place → List Char → Option Scanned
  | _, p, [] =>
    some ⟨String.ofList (b.chomped chomping ++ read).reverse, false, ⟨p, []⟩⟩
  | .indentation indent widest, p, c :: rest =>
    let inside := match indent with
      | none => true
      | some n => p.column < n
    if inside && c == ' ' then
      scan literal chomping parent read b (.indentation indent (max widest (p.column + 1)))
        (p.right 1) rest
    else if inside && c == '\t' then none
    else if isBreak c then
      match c, rest with
      | '\r', '\n' :: rest =>
        scan literal chomping parent read { b with more := '\n' :: b.more }
          (.indentation indent widest) (p.down 2) rest
      | c, rest =>
        scan literal chomping parent read { b with more := breakValue c :: b.more }
          (.indentation indent widest) (p.down 1) rest
    else
      let n := match indent with
        | none => settled parent (max widest p.column)
        | some n => n
      if p.column = n then
        scan literal chomping parent (c :: (b.joined literal (isBlank c) ++ read))
          ⟨none, [], isBlank c⟩ (.line n) (p.right 1) rest
      else some ⟨String.ofList (b.chomped chomping ++ read).reverse, false, ⟨p, c :: rest⟩⟩
  | .line n, p, c :: rest =>
    if isBreak c then
      match c, rest with
      | '\r', '\n' :: rest =>
        scan literal chomping parent read { b with first := some '\n' } (.indentation (some n) 0)
          (p.down 2) rest
      | c, rest =>
        scan literal chomping parent read { b with first := some (breakValue c) }
          (.indentation (some n) 0) (p.down 1) rest
    else scan literal chomping parent (c :: read) b (.line n) (p.right 1) rest

/-- What the first line of a block scalar says: the chomping, and the indentation if it is given. -/
structure Header where
  chomping : Chomping
  indent : Option Nat

/-- The chomping that a character says. -/
def chomping? (c : Char) : Option Chomping :=
  if c = '+' then some .keep else if c = '-' then some .strip else none

/-- The indentation that a digit says; it may not be zero. -/
def indent? (c : Char) : Option (Option Nat) :=
  if c.isDigit then some (if c = '0' then none else some (c.toNat - '0'.toNat)) else none

/-- The header after the indicator: either part first, neither twice. -/
def header? (c : Cursor) : Option (Header × Cursor) :=
  match c.rest with
  | a :: rest =>
    match chomping? a, indent? a with
    | some k, _ =>
      match rest with
      | d :: _ =>
        match indent? d with
        | some none => none
        | some (some n) => some (⟨k, some n⟩, c.skip 2)
        | none => some (⟨k, none⟩, c.skip 1)
      | [] => some (⟨k, none⟩, c.skip 1)
    | none, some none => none
    | none, some (some n) =>
      match rest with
      | k :: _ =>
        match chomping? k with
        | some k => some (⟨k, some n⟩, c.skip 2)
        | none => some (⟨.clip, some n⟩, c.skip 1)
      | [] => some (⟨.clip, some n⟩, c.skip 1)
    | none, none => some (⟨.clip, none⟩, c)
  | [] => some (⟨.clip, none⟩, c)

/-- The scalar whose indicator has just been passed. -/
def scalar? (literal : Bool) (parent : Int) (c : Cursor) : Option Scanned := do
  let (header, c) ← header? c
  let c := (c.skipWhile isBlank).skipComment
  if !atLineEnd c.rest then none
  else
    let c := c.skipBreak
    let indent := header.indent.map fun n => if 0 ≤ parent then parent.toNat + n else n
    scan literal header.chomping parent [] ⟨none, [], false⟩ (.indentation indent 0) c.place c.rest

end Provision.Yaml.BlockScalar
