/-!
# Places in a text

Where a reader of YAML stands: how many characters it has passed, on which line it is and how many
characters into the line, and what is still to come. The classes of characters that indentation and
folding depend on are defined here too.
-/

namespace Provision.Yaml

/-- The number of characters passed, of lines passed, and of characters passed on the line. -/
structure Place where
  index : Nat
  line : Nat
  column : Nat
  deriving DecidableEq

namespace Place

/-- The beginning of a text. -/
def start : Place := ⟨0, 0, 0⟩

/-- After `n` more characters of the same line. -/
def right (p : Place) (n : Nat) : Place := ⟨p.index + n, p.line, p.column + n⟩

/-- After a line break of `n` characters. -/
def down (p : Place) (n : Nat) : Place := ⟨p.index + n, p.line + 1, 0⟩

end Place

/-- The characters that end a line. -/
def isBreak (c : Char) : Bool :=
  c == '\n' || c == '\r' || c.toNat == 0x85 || c.toNat == 0x2028 || c.toNat == 0x2029

/-- The characters that separate words on a line. -/
def isBlank (c : Char) : Bool := c == ' ' || c == '\t'

/-- The characters that names are made of. -/
def isWord (c : Char) : Bool := c.isAlphanum || c == '_' || c == '-'

/-- The character that a line break counts as; two of them are kept as they are. -/
def breakValue (c : Char) : Char :=
  if c.toNat == 0x2028 || c.toNat == 0x2029 then c else '\n'

/-- Whether the text ends or something blank comes next. -/
def atBlankOrEnd : List Char → Bool
  | [] => true
  | c :: _ => isBlank c || isBreak c

/-- Whether the line ends. -/
def atLineEnd : List Char → Bool
  | [] => true
  | c :: _ => isBreak c

/-- Whether a line begins with three of `c`, standing alone. -/
def atMark (c : Char) : List Char → Bool
  | c₁ :: c₂ :: c₃ :: rest => c₁ == c && c₂ == c && c₃ == c && atBlankOrEnd rest
  | _ => false

/-- Whether a line begins with the mark of the beginning or of the end of a document. -/
def atDocumentMark (p : Place) (cs : List Char) : Bool :=
  p.column == 0 && (atMark '-' cs || atMark '.' cs)

/-- Whether a text may hold the character at all. -/
def isAllowed (c : Char) : Bool :=
  let n := c.toNat
  n == 9 || n == 10 || n == 13 || (0x20 ≤ n && n ≤ 0x7E) || n == 0x85 ||
    (0xA0 ≤ n && n ≤ 0xFFFD) || 0x10000 ≤ n

/-- A place and what is still to come. -/
structure Cursor where
  place : Place
  rest : List Char

namespace Cursor

/-- Passes `n` characters that stay on the line. -/
def skip (c : Cursor) (n : Nat) : Cursor := ⟨c.place.right n, c.rest.drop n⟩

/-- Passes the characters of a class that stay on the line. -/
def skipWhile (c : Cursor) (p : Char → Bool) : Cursor := c.skip (c.rest.takeWhile p).length

/-- Passes a line break, if one comes next. -/
def skipBreak (c : Cursor) : Cursor :=
  match c.rest with
  | '\r' :: '\n' :: rest => ⟨c.place.down 2, rest⟩
  | b :: rest => if isBreak b then ⟨c.place.down 1, rest⟩ else c
  | [] => c

/-- Passes what is left of the line if it is blank or a comment. -/
def skipComment (c : Cursor) : Cursor :=
  match c.rest with
  | '#' :: _ => c.skipWhile fun c => !isBreak c
  | _ => c

end Cursor

/-- What stands between two words of a scalar: blanks, or a first line break and those after it.
Characters are kept last first. -/
inductive Gap where
  | blanks (read : List Char)
  | lines (first : Option Char) (more : List Char)

namespace Gap

/-- No gap. -/
def none : Gap := .blanks []

/-- Another blank; those after a line break do not count. -/
def blank (c : Char) : Gap → Gap
  | .blanks read => .blanks (c :: read)
  | g => g

/-- Another line break. -/
def newLine (c : Char) : Gap → Gap
  | .blanks _ => .lines (some (breakValue c)) []
  | .lines first more => .lines first (breakValue c :: more)

/-- What a gap comes to inside a scalar, last first: a single line break becomes a space, and of
several the first is dropped. -/
def folded : Gap → List Char
  | .blanks read => read
  | .lines (some '\n') [] => [' ']
  | .lines (some '\n') more => more
  | .lines (some c) more => more ++ [c]
  | .lines Option.none more => more

end Gap

/-- A scalar that has been read, and where its reading ended. -/
structure Scanned where
  text : String
  /-- Whether the reading went on past a line break at its end. -/
  crossed : Bool
  after : Cursor

end Provision.Yaml
