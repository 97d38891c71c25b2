import Provision.Yaml.PlainScalar
import Provision.Yaml.QuotedScalar
import Provision.Yaml.BlockScalar

/-!
# YAML tokens

Indentation becomes brackets: a block list or mapping opens with its first line and closes with the
first line that is indented less. The key of a mapping is known to be one only when the colon after
it comes, so its beginning is remembered, and the tokens that say so are put in there afterwards.
-/

namespace Provision.Yaml

/-- The parts of a YAML text. -/
inductive Token where
  | versionDirective (major minor : Nat)
  | tagDirective (handle lead : String)
  | documentStart
  | documentEnd
  | blockListStart
  | blockMappingStart
  | blockEnd
  | flowListStart
  | flowListEnd
  | flowMappingStart
  | flowMappingEnd
  | blockEntry
  | flowEntry
  | key
  | value
  | alias (name : String)
  | anchor (name : String)
  | tag (handle suffix : String)
  | scalar (text : String) (plain : Bool)
  | streamEnd
  deriving DecidableEq

/-- A place where a key may have begun. -/
structure KeyStart where
  /-- Whether nothing but a key can stand there. -/
  required : Bool
  /-- The number of tokens before it. -/
  tokens : Nat
  place : Place

/-- The reader of tokens. -/
structure Lexer where
  cursor : Cursor
  tokens : Array Token
  /-- The column of the innermost block, and those of the blocks around it. -/
  indent : Int
  outer : List Int
  /-- Whether a key may begin here. -/
  keyAllowed : Bool
  /-- The place where a key may have begun, in the innermost brackets and in those around. -/
  keys : List (Option KeyStart)

namespace Lexer

/-- The reader at the beginning of a text. -/
def start (cs : List Char) : Lexer := ⟨⟨.start, cs⟩, #[], -1, [], true, [none]⟩

/-- Whether the reader is inside brackets. -/
def inFlow (l : Lexer) : Bool := 1 < l.keys.length

/-- Adds a token. -/
def push (l : Lexer) (t : Token) : Lexer := { l with tokens := l.tokens.push t }

/-- Puts a token in at a place before. -/
def insert (l : Lexer) (n : Nat) (t : Token) : Lexer :=
  { l with tokens := l.tokens.insertIdxIfInBounds n t }

/-- Passes `n` characters of the line. -/
def skip (l : Lexer) (n : Nat) : Lexer := { l with cursor := l.cursor.skip n }

/-- Opens a block at a column, if the column is farther in. The block starts with token `at?`. -/
def roll (l : Lexer) (column : Nat) (at? : Option Nat) (t : Token) : Lexer :=
  if l.inFlow || column ≤ l.indent then l
  else
    let l := match at? with
      | some n => l.insert n t
      | none => l.push t
    { l with outer := l.indent :: l.outer, indent := column }

/-- Closes the blocks that are farther in than a column. -/
def unroll (l : Lexer) (column : Int) : Lexer :=
  if l.inFlow then l else close column l.outer l
where
  /-- Closes blocks as far as there are any around. -/
  close (column : Int) : List Int → Lexer → Lexer
    | [], l => l
    | i :: is, l =>
      if column < l.indent then
        close column is { l with tokens := l.tokens.push .blockEnd, indent := i, outer := is }
      else l

/-- Gives up on a key that may have begun; fails if it had to be one. -/
def dropKey (l : Lexer) : Option Lexer :=
  match l.keys with
  | some k :: ks => if k.required then none else some { l with keys := none :: ks }
  | _ => some l

/-- Remembers that a key may begin here. -/
def saveKey (l : Lexer) : Option Lexer :=
  if l.keyAllowed then do
    let l ← l.dropKey
    let required := !l.inFlow && l.indent == l.cursor.place.column
    some { l with keys := some ⟨required, l.tokens.size, l.cursor.place⟩ :: l.keys.tail }
  else some l

/-- Whether a key that began at `k` cannot reach as far as `p`: it may not pass the end of its line,
nor be longer than 1024 characters. -/
def isStale (p : Place) (k : KeyStart) : Bool :=
  k.place.line < p.line || k.place.index + 1024 < p.index

/-- Gives up on every key that cannot reach this far. -/
def dropStale (l : Lexer) : Option Lexer := do
  let keys ← l.keys.mapM fun
    | none => some none
    | some k =>
      if isStale l.cursor.place k then (if k.required then none else some none)
      else some (some k)
  some { l with keys := keys }

/-- Passes blanks, comments and line breaks, with at most `fuel` line breaks among them. Outside of
brackets a new line may begin a key; a tab may not stand where a key may begin. -/
def skipToToken : Nat → Lexer → Lexer
  | 0, l => l
  | fuel + 1, l =>
    let tabs := l.inFlow || !l.keyAllowed
    let c := (l.cursor.skipWhile fun c => c == ' ' || (tabs && c == '\t')).skipComment
    match c.rest with
    | b :: _ =>
      if isBreak b then
        skipToToken fuel { l with cursor := c.skipBreak, keyAllowed := l.keyAllowed || !l.inFlow }
      else { l with cursor := c }
    | [] => { l with cursor := c }

/-- A name that ends where a name may end. -/
def name? (l : Lexer) : Option (String × Lexer) :=
  let word := l.cursor.rest.takeWhile isWord
  let l := l.skip word.length
  let ended := match l.cursor.rest with
    | [] => true
    | c :: _ => isBlank c || isBreak c || "?:,]\x7d%@\x60".toList.contains c
  if word.isEmpty || !ended then none else some (String.ofList word, l)

/-- The characters that tags are made of; those between angle brackets may hold more. -/
def isTagChar (verbatim : Bool) (c : Char) : Bool :=
  isWord c || ";/?:@&=+$.!~*'()%".toList.contains c
    || (verbatim && (c == ',' || c == '[' || c == ']'))

/-- The bytes of a UTF-8 character whose first byte is `b`. -/
def utf8Width (b : Nat) : Nat :=
  if b < 0x80 then 1 else if b < 0xC0 then 0 else if b < 0xE0 then 2 else if b < 0xF0 then 3
  else if b < 0xF8 then 4 else 0

/-- A byte written as two hexadecimal digits after a percent sign. -/
def escapedByte? : List Char → Option (Nat × List Char)
  | '%' :: a :: b :: rest => do
    let x ← QuotedScalar.hexValue? a
    let y ← QuotedScalar.hexValue? b
    some (16 * x + y, rest)
  | _ => none

/-- The escaped bytes that continue a character. -/
def continuation? : Nat → Nat → List Char → Option (Nat × List Char)
  | 0, n, cs => some (n, cs)
  | k + 1, n, cs => do
    let (b, rest) ← escapedByte? cs
    if 0x80 ≤ b ∧ b < 0xC0 then continuation? k (64 * n + (b - 0x80)) rest else none

/-- A character written as escaped bytes. -/
def escapedChar? (cs : List Char) : Option (Char × List Char) := do
  let (b, rest) ← escapedByte? cs
  let width := utf8Width b
  if width = 0 then none
  else
    let lead := if width = 1 then b else b % Nat.pow 2 (7 - width)
    let (n, rest) ← continuation? (width - 1) lead rest
    let c ← QuotedScalar.character? n
    some (c, rest)

/-- The text of the characters of a tag, with its escapes read. -/
def unescapeTag : Nat → List Char → Option (List Char)
  | 0, _ => none
  | _, [] => some []
  | fuel + 1, c :: cs =>
    if c = '%' then do
      let (d, rest) ← escapedChar? (c :: cs)
      (unescapeTag fuel rest).map (d :: ·)
    else (unescapeTag fuel cs).map (c :: ·)

/-- The characters of a tag from here on, read after `lead`; not both may be empty. -/
def tagText? (l : Lexer) (verbatim : Bool) (lead : String) : Option (String × Lexer) := do
  let cs := l.cursor.rest.takeWhile (isTagChar verbatim)
  let text ← unescapeTag (cs.length + 1) cs
  if cs.isEmpty && lead.isEmpty then none
  else some (lead ++ String.ofList text, l.skip cs.length)

/-- The handle that a tag begins with: a mark, perhaps a word and perhaps another mark. -/
def tagHandle (l : Lexer) : List Char × Lexer :=
  let word := (l.cursor.rest.drop 1).takeWhile isWord
  match l.cursor.rest.drop (1 + word.length) with
  | '!' :: _ => ('!' :: word ++ ['!'], l.skip (word.length + 2))
  | _ => ('!' :: word, l.skip (word.length + 1))

/-- The tag that begins here. -/
def tag? (l : Lexer) : Option (String × String × Lexer) := do
  let (handle, suffix, l) ← match l.cursor.rest with
    | '!' :: '<' :: _ => do
      let (suffix, l) ← (l.skip 2).tagText? true ""
      match l.cursor.rest with
      | '>' :: _ => some ("", suffix, l.skip 1)
      | _ => none
    | _ =>
      let (handle, l) := l.tagHandle
      if 1 < handle.length && handle.getLast? == some '!' then do
        let (suffix, l) ← l.tagText? false ""
        some (String.ofList handle, suffix, l)
      else do
        let word := String.ofList (handle.drop 1)
        let (suffix, l) ← l.tagText? false word <|> some (word, l)
        if suffix.isEmpty then some ("", "!", l) else some ("!", suffix, l)
  let ended := match l.cursor.rest with
    | [] => true
    | c :: _ => isBlank c || isBreak c || (l.inFlow && c == ',')
  if ended then some (handle, suffix, l) else none

/-- A number of a version. -/
def number? (c : Cursor) : Option (Nat × Cursor) :=
  let ds := c.rest.takeWhile Char.isDigit
  if ds.isEmpty || 9 < ds.length then none
  else some (ds.foldl (fun n d => 10 * n + (d.toNat - '0'.toNat)) 0, c.skip ds.length)

/-- The directive that begins here, up to the end of its line. -/
def directive? (l : Lexer) : Option Lexer := do
  let c := l.cursor.skip 1
  let word := c.rest.takeWhile isWord
  let c := c.skip word.length
  if word.isEmpty || !atBlankOrEnd c.rest then none
  let (t, c) ←
    if word = ['Y', 'A', 'M', 'L'] then do
      let (major, c) ← number? (c.skipWhile isBlank)
      match c.rest with
      | '.' :: _ => do
        let (minor, c) ← number? (c.skip 1)
        some (Token.versionDirective major minor, c)
      | _ => none
    else if word = ['T', 'A', 'G'] then do
      let l' := { l with cursor := c.skipWhile isBlank }
      let (handle, l') ← match l'.cursor.rest with
        | '!' :: _ => some l'.tagHandle
        | _ => none
      if handle != ['!'] && handle.getLast? != some '!' then none
      if !l'.cursor.rest.head?.any isBlank then none
      let (lead, l') ← { l' with cursor := l'.cursor.skipWhile isBlank }.tagText? true ""
      if !atBlankOrEnd l'.cursor.rest then none
      some (Token.tagDirective (String.ofList handle) lead, l'.cursor)
    else none
  let c := (c.skipWhile isBlank).skipComment
  if !atLineEnd c.rest then none
  some { l with cursor := c.skipBreak, tokens := l.tokens.push t }

/-- The mark of a document. -/
def documentMark (l : Lexer) (t : Token) : Option Lexer := do
  let l ← (l.unroll (-1)).dropKey
  some (({ l with keyAllowed := false }.push t).skip 3)

/-- An opening bracket. -/
def openFlow (l : Lexer) (t : Token) : Option Lexer := do
  let l ← l.saveKey
  some (({ l with keys := none :: l.keys, keyAllowed := true }.push t).skip 1)

/-- A closing bracket. -/
def closeFlow (l : Lexer) (t : Token) : Option Lexer := do
  let l ← l.dropKey
  let keys := match l.keys with
    | _ :: k :: ks => k :: ks
    | ks => ks
  some (({ l with keys := keys, keyAllowed := false }.push t).skip 1)

/-- A comma. -/
def flowEntry (l : Lexer) : Option Lexer := do
  let l ← l.dropKey
  some (({ l with keyAllowed := true }.push .flowEntry).skip 1)

/-- A hyphen before an item. -/
def blockEntry (l : Lexer) : Option Lexer := do
  let l ← if l.inFlow then some l
    else if l.keyAllowed then some (l.roll l.cursor.place.column none .blockListStart)
    else none
  let l ← l.dropKey
  some (({ l with keyAllowed := true }.push .blockEntry).skip 1)

/-- A question mark before a key. -/
def explicitKey (l : Lexer) : Option Lexer := do
  let l ← if l.inFlow then some l
    else if l.keyAllowed then some (l.roll l.cursor.place.column none .blockMappingStart)
    else none
  let l ← l.dropKey
  some (({ l with keyAllowed := !l.inFlow }.push .key).skip 1)

/-- A colon before a value. -/
def mappingValue (l : Lexer) : Option Lexer :=
  match l.keys with
  | some k :: ks =>
    let l := (l.insert k.tokens .key).roll k.place.column (some k.tokens) .blockMappingStart
    some (({ l with keys := none :: ks, keyAllowed := false }.push .value).skip 1)
  | _ => do
    let l ← if l.inFlow then some l
      else if l.keyAllowed then some (l.roll l.cursor.place.column none .blockMappingStart)
      else none
    some (({ l with keyAllowed := !l.inFlow }.push .value).skip 1)

/-- A name after an ampersand or an asterisk. -/
def named (l : Lexer) (t : String → Token) : Option Lexer := do
  let l ← l.saveKey
  let (name, l) ← (l.skip 1).name?
  some ({ l with keyAllowed := false }.push (t name))

/-- A tag. -/
def tagged (l : Lexer) : Option Lexer := do
  let l ← l.saveKey
  let (handle, suffix, l) ← l.tag?
  some ({ l with keyAllowed := false }.push (.tag handle suffix))

/-- A block scalar. -/
def blockScalar (l : Lexer) (literal : Bool) : Option Lexer := do
  let l ← l.dropKey
  let s ← BlockScalar.scalar? literal l.indent (l.cursor.skip 1)
  some ({ l with keyAllowed := true, cursor := s.after }.push (.scalar s.text false))

/-- A quoted scalar. -/
def quotedScalar (l : Lexer) (single : Bool) : Option Lexer := do
  let l ← l.saveKey
  let c := l.cursor.skip 1
  let s ← QuotedScalar.scan single [] .none .text c.place c.rest
  some ({ l with keyAllowed := false, cursor := s.after }.push (.scalar s.text false))

/-- A plain scalar. -/
def plainScalar (l : Lexer) : Option Lexer := do
  let l ← l.saveKey
  let s ← PlainScalar.scan l.inFlow (l.indent + 1) [] .none false .start l.cursor.place
    l.cursor.rest
  some ({ l with keyAllowed := s.crossed, cursor := s.after }.push (.scalar s.text true))

/-- The end of the text. -/
def finish (l : Lexer) : Option Lexer := do
  let l ← (l.unroll (-1)).dropKey
  some (l.push .streamEnd)

/-- The characters that no plain scalar begins with. -/
def isIndicator (c : Char) : Bool := "-?:,[]\x7b\x7d#&*!|>'\"%@\x60".toList.contains c

/-- Whether a plain scalar begins with `c` before `rest`. -/
def beginsPlain (flow : Bool) (c : Char) (rest : List Char) : Bool :=
  (!isIndicator c && !isBlank c) || (c == '-' && !rest.head?.any isBlank)
    || (!flow && (c == '?' || c == ':') && !atBlankOrEnd rest)

/-- Reads the token that begins with `c` before `rest`. -/
def token (l : Lexer) (c : Char) (rest : List Char) : Option Lexer :=
  let first := l.cursor.place.column == 0
  if first && c == '%' then do
    let l ← (l.unroll (-1)).dropKey
    { l with keyAllowed := false }.directive?
  else if first && atMark '-' (c :: rest) then l.documentMark .documentStart
  else if first && atMark '.' (c :: rest) then l.documentMark .documentEnd
  else
    let indicator := l.inFlow || atBlankOrEnd rest
    match c with
    | '[' => l.openFlow .flowListStart
    | '\x7b' => l.openFlow .flowMappingStart
    | ']' => l.closeFlow .flowListEnd
    | '\x7d' => l.closeFlow .flowMappingEnd
    | ',' => l.flowEntry
    | '*' => l.named .alias
    | '&' => l.named .anchor
    | '!' => l.tagged
    | '\'' => l.quotedScalar true
    | '"' => l.quotedScalar false
    | c =>
      if c == '-' && atBlankOrEnd rest then l.blockEntry
      else if c == '?' && indicator then l.explicitKey
      else if c == ':' && indicator then l.mappingValue
      else if c == '|' && !l.inFlow then l.blockScalar true
      else if c == '>' && !l.inFlow then l.blockScalar false
      else if beginsPlain l.inFlow c rest then l.plainScalar
      else none

/-- Reads token after token, at most `fuel` of them. -/
def run : Nat → Lexer → Option Lexer
  | 0, _ => none
  | fuel + 1, l => do
    let l ← (l.skipToToken (l.cursor.rest.length + 1)).dropStale
    let l := l.unroll l.cursor.place.column
    match l.cursor.rest with
    | [] => l.finish
    | c :: rest => do
      let l ← l.token c rest
      run fuel l

end Lexer

/-- The tokens of a text. A mark of the byte order may begin it. -/
def tokens? (text : String) : Option (List Token) :=
  let cs := text.toList
  if !cs.all isAllowed then none
  else
    let l := Lexer.start cs
    let l := match cs with
      | c :: _ => if c.toNat = 0xFEFF then { l with cursor := l.cursor.skip 1 } else l
      | [] => l
    (l.run (cs.length + 1)).map fun l => l.tokens.toList

end Provision.Yaml
