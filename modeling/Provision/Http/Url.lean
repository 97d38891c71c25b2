import Provision.Text.Numeral

/-!
# Addresses

The address of a request: where the server is, the path to what is asked for, and a query. An
address is read the way browsers read it. Characters that may not stand in a path or a query are
written as the bytes of their encoding, each as a percent sign and two digits; a percent sign stands
for itself. Dots that name the same or the enclosing folder are resolved. What follows a number sign
is for whoever holds the address and is not sent.
-/

namespace Provision

/-- The address of a request; `segments` are the parts of the path between its slashes. -/
structure Url where
  scheme : String
  host : String
  /-- The port, unless it is the one that the scheme implies. -/
  port : Option Nat
  segments : List String
  query : Option String
  fragment : Option String
  deriving DecidableEq

namespace Url

/-- The schemes that are understood, with their ports. -/
def schemes : List (String × Nat) := [("http", 80), ("https", 443)]

/-- A hexadecimal digit in upper case. -/
def hexDigit (n : Nat) : Char :=
  if n < 10 then Char.ofNat ('0'.toNat + n) else Char.ofNat ('A'.toNat + (n - 10))

/-- A byte as a percent sign and two digits. -/
def percent (b : UInt8) : List Char := ['%', hexDigit (b.toNat / 16), hexDigit (b.toNat % 16)]

/-- A character, or its bytes if it may not stand for itself. -/
def encodeChar (reserved : Char → Bool) (c : Char) : List Char :=
  if c.toNat < 0x20 || 0x7F ≤ c.toNat || reserved c then
    (String.singleton c).toUTF8.toList.flatMap percent
  else [c]

/-- A text in which no reserved character stands for itself. -/
def encode (reserved : Char → Bool) (cs : List Char) : String :=
  String.ofList (cs.flatMap (encodeChar reserved))

/-- The characters that may not stand in a path. -/
def reservedInPath (c : Char) : Bool := " \"#<>?\x60\x7b\x7d".toList.contains c

/-- The characters that may not stand in a query. -/
def reservedInQuery (c : Char) : Bool := " \"#<>'".toList.contains c

/-- The characters that may not stand in a fragment. -/
def reservedInFragment (c : Char) : Bool := " \"<>\x60".toList.contains c

/-- The text without control characters and spaces at its ends, and without tabs and line breaks
anywhere. -/
def clean (cs : List Char) : List Char :=
  let loose (c : Char) : Bool := c.toNat ≤ 0x20
  let cs := ((cs.dropWhile loose).reverse.dropWhile loose).reverse
  cs.filter fun c => c != '\t' && c != '\n' && c != '\r'

/-- The scheme in small letters, and what follows its colon. -/
def scheme? (cs : List Char) : Option (String × List Char) :=
  match cs.head? with
  | none => none
  | some c =>
    let name := cs.takeWhile fun c => c.isAlphanum || c == '+' || c == '-' || c == '.'
    match cs.drop name.length with
    | ':' :: rest =>
      if c.isAlpha then some (String.ofList (name.map Char.toLower), rest) else none
    | _ => none

/-- Whether a character separates the parts of a path. -/
def isSlash (c : Char) : Bool := c == '/' || c == '\\'

/-- The value of a hexadecimal digit. -/
def hexValue? (c : Char) : Option Nat :=
  if c.isDigit then some (c.toNat - '0'.toNat)
  else if 'a' ≤ c ∧ c ≤ 'f' then some (c.toNat - 'a'.toNat + 10)
  else if 'A' ≤ c ∧ c ≤ 'F' then some (c.toNat - 'A'.toNat + 10)
  else none

/-- The bytes of a text, in which a percent sign and two digits are one byte. -/
def decodeBytes : List Char → List UInt8
  | [] => []
  | '%' :: a :: b :: cs =>
    match hexValue? a, hexValue? b with
    | some x, some y => UInt8.ofNat (16 * x + y) :: decodeBytes cs
    | _, _ => '%'.toUInt8 :: decodeBytes (a :: b :: cs)
  | c :: cs => (String.singleton c).toUTF8.toList ++ decodeBytes cs

/-- A number in the name of a server: decimal, octal after a zero, hexadecimal after a zero and an
x. No digits at all are zero. -/
def hostNumber? (cs : List Char) : Option Nat :=
  let (base, ds) : Nat × List Char := match cs with
    | '0' :: 'x' :: ds | '0' :: 'X' :: ds => (16, ds)
    | '0' :: d :: ds => (8, d :: ds)
    | ds => (10, ds)
  ds.foldlM (fun n c => do
    let d ← hexValue? c
    if d < base then some (base * n + d) else none) 0

/-- The parts of a text between dots, without an empty one at the end. -/
def dotted (cs : List Char) : List (List Char) :=
  let parts := cs.splitOn '.'
  match parts.getLast? with
  | some [] => if parts.length = 1 then parts else parts.dropLast
  | _ => parts

/-- Whether the name of a server has to be a number: its last part is one. -/
def endsInNumber (cs : List Char) : Bool :=
  match (dotted cs).getLast? with
  | none => false
  | some last =>
    (!last.isEmpty && last.all Char.isDigit)
      || ((hostNumber? last).isSome
        && (['0', 'x'].isPrefixOf last || ['0', 'X'].isPrefixOf last))

/-- The number that a server goes by, each part but the last being one byte of it. -/
def hostAddress? (cs : List Char) : Option String := do
  let parts := dotted cs
  if 4 < parts.length ∨ parts.contains [] then none
  let ns ← parts.mapM hostNumber?
  let last ← ns.getLast?
  let firsts := ns.dropLast
  if firsts.any (255 < ·) ∨ Nat.pow 256 (5 - ns.length) ≤ last then none
  let low := (List.range (5 - ns.length)).reverse.map fun i => last / Nat.pow 256 i % 256
  some (String.intercalate "." ((firsts ++ low).map Numeral.ofNat))

/-- The characters that may not stand in the name of a server. -/
def forbiddenInHost (c : Char) : Bool :=
  c.toNat ≤ 0x20 || 0x7F ≤ c.toNat || "#%/:<>?@[\\]^|".toList.contains c

/-- The server that a text names, by a name of plain letters or by number. -/
def host? (cs : List Char) : Option String :=
  match cs with
  | '[' :: rest =>
    if rest.getLast? = some ']' ∧ 2 < rest.length ∧
        rest.dropLast.all (fun c => (hexValue? c).isSome || c == ':' || c == '.') then
      some (String.ofList (cs.map Char.toLower))
    else none
  | cs => do
    let name ← String.fromUTF8? (ByteArray.mk (decodeBytes cs).toArray)
    let name := name.toList.map Char.toLower
    if name.isEmpty || name.any forbiddenInHost then none
    else if endsInNumber name then hostAddress? name
    else some (String.ofList name)

/-- A port, unless it is the one implied; no digits name none. -/
def port? (implied : Nat) (cs : List Char) : Option (Option Nat) :=
  if cs.isEmpty then some none
  else do
    let n ← Numeral.readDigits cs
    if 65535 < n then none else some (if n = implied then none else some n)

/-- The server and the port, what stands before the last at sign being left out. -/
def authority? (implied : Nat) (cs : List Char) : Option (String × Option Nat) := do
  let cs := (cs.reverse.takeWhile (· != '@')).reverse
  let name := match cs with
    | '[' :: _ => cs.takeWhile (· != ']') ++ (cs.dropWhile (· != ']')).take 1
    | _ => cs.takeWhile (· != ':')
  let host ← host? name
  match cs.drop name.length with
  | [] => some (host, none)
  | ':' :: digits => do
    let port ← port? implied digits
    some (host, port)
  | _ => none

/-- Whether a segment names the folder that it is in. -/
def isDot (segment : String) : Bool := segment == "." || segment.toLower == "%2e"

/-- Whether a segment names the folder around. -/
def isDoubleDot (segment : String) : Bool :=
  ["..", ".%2e", "%2e.", "%2e%2e"].contains segment.toLower

/-- The segments of a path with dots resolved; `done` are those passed, the last first. -/
def resolve (done : List String) : List String → List String
  | [] => done.reverse
  | [s] =>
    if isDoubleDot s then (("" : String) :: done.tail).reverse
    else if isDot s then (("" : String) :: done).reverse
    else (s :: done).reverse
  | s :: ss =>
    if isDoubleDot s then resolve done.tail ss
    else if isDot s then resolve done ss
    else resolve (s :: done) ss

/-- The segments of a path; `cs` begins with a slash or is empty. -/
def segmentsOf (cs : List Char) : List String :=
  resolve [] ((cs.tail.splitOnP isSlash).map (encode reservedInPath))

/-- The address that a text says. -/
def ofText? (text : String) : Option Url := do
  let (scheme, rest) ← scheme? (clean text.toList)
  let implied ← schemes.lookup scheme
  let rest := rest.dropWhile isSlash
  let ends (c : Char) : Bool := isSlash c || c == '?' || c == '#'
  let (host, port) ← authority? implied (rest.takeWhile fun c => !ends c)
  let rest := rest.dropWhile fun c => !ends c
  let path := rest.takeWhile fun c => c != '?' && c != '#'
  let rest := rest.drop path.length
  let query := rest.takeWhile (· != '#')
  some {
    scheme := scheme
    host := host
    port := port
    segments := segmentsOf path
    query := match query with
      | [] => none
      | _ :: cs => some (encode reservedInQuery cs)
    fragment := match rest.drop query.length with
      | [] => none
      | _ :: cs => some (encode reservedInFragment cs) }

/-- The path from its first slash. -/
def path (u : Url) : String := String.join (u.segments.map ("/" ++ ·))

/-- The path and the query, as they are sent. -/
def target (u : Url) : String :=
  u.path ++ (match u.query with
    | some q => "?" ++ q
    | none => "")

/-- The server and the port in front of the path. -/
def server (u : Url) : String :=
  u.scheme ++ "://" ++ u.host ++ (match u.port with
    | some p => ":" ++ Numeral.ofNat p
    | none => "")

/-- The whole address. -/
def text (u : Url) : String :=
  u.server ++ u.target ++ (match u.fragment with
    | some f => "#" ++ f
    | none => "")

end Url

end Provision
