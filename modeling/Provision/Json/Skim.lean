import Provision.Json.Reader

/-!
# Skimmed JSON

Whoever is after the fields of a record passes over all others. Of what is passed over only the
grammar is checked: a number may be too large to have a meaning, a text may have half of a pair of
code units in it, and lists and objects may be nested without limit. A document is skimmed as if all
of it might be passed over, and has `Node.illegible` where it could not be read.
-/

namespace Provision

namespace Node

/-- What cannot be read, and so fits no place that anything is read from. -/
def illegible : Node := .marked (.scalar .null none)

mutual

/-- The document with lists and mappings nested at most so deep; what is nested deeper cannot be
read. -/
def within : Node → Nat → Node
  | .list _, 0 => illegible
  | .list xs, room + 1 => .list (withinItems xs room)
  | .mapping _, 0 => illegible
  | .mapping es, room + 1 => .mapping (withinEntries es room)
  | .scalar m spelling, _ => .scalar m spelling
  | .marked x, _ => .marked x

@[inherit_doc within]
def withinItems : List Node → Nat → List Node
  | [], _ => []
  | x :: xs, room => within x room :: withinItems xs room

@[inherit_doc within]
def withinEntries : List (Node × Node) → Nat → List (Node × Node)
  | [], _ => []
  | (k, x) :: es, room => (k, within x room) :: withinEntries es room

end

end Node

namespace Json

/-- A part of a JSON text, which may also be a number or a text without a meaning. -/
inductive Part where
  | token (t : Token)
  | number
  | text

/-- What the machine is in the middle of, also when a text has no meaning any more. -/
inductive SkimMode where
  | mode (m : Mode)
  | lost
  /-- After a backslash. -/
  | lostEscape
  /-- Inside the four digits of a code unit. -/
  | lostUnit (digits : Nat)

/-- A character in a text without a meaning. -/
def lose (c : Char) : Option (List Part × SkimMode) :=
  if c = '"' then some ([.text], .mode .between)
  else if c = '\\' then some ([], .lostEscape)
  else if c.toNat < 0x20 then none
  else some ([], .lost)

/-- A character after a backslash in a text without a meaning. -/
def loseEscape (c : Char) : Option (List Part × SkimMode) :=
  if c = 'u' then some ([], .lostUnit 0) else (shortEscape c).map fun _ => ([], .lost)

/-- A character that does not fit: a number is none, or two code units are no pair. -/
def Mode.skip (mode : Mode) (c : Char) : Option (List Part × SkimMode) :=
  match mode with
  | .number read => do
    let _ ← Numeral.Parts.ofChars read.reverse
    let (ts, mode) ← begin c
    some (.number :: ts.map .token, .mode mode)
  | .unit _ _ digits _ => if digits = 3 then (hexValue c).map fun _ => ([], .lost) else none
  | .pair .. => lose c
  | .pairEscape .. => loseEscape c
  | _ => none

/-- One character drives the machine one step. -/
def SkimMode.step (mode : SkimMode) (c : Char) : Option (List Part × SkimMode) :=
  match mode with
  | .mode m =>
    match m.step c with
    | some (ts, m) => some (ts.map .token, .mode m)
    | none => m.skip c
  | .lost => lose c
  | .lostEscape => loseEscape c
  | .lostUnit digits =>
    (hexValue c).map fun _ => ([], if digits = 3 then .lost else .lostUnit (digits + 1))

/-- What the end of the text does. -/
def SkimMode.finish (mode : SkimMode) : Option (List Part) :=
  match mode with
  | .mode m =>
    match m.finish, m with
    | some ts, _ => some (ts.map .token)
    | none, .number read => (Numeral.Parts.ofChars read.reverse).map fun _ => [.number]
    | none, _ => none
  | _ => none

/-- The parts of the characters from a mode on, after those already found, last first. -/
def partsFrom : SkimMode → List Part → List Char → Option (List Part)
  | mode, found, [] => mode.finish.map fun ps => found.reverse ++ ps
  | mode, found, c :: cs =>
    match mode.step c with
    | none => none
    | some (ps, mode) => partsFrom mode (ps.reverse ++ found) cs

/-- Opens a list or an object, however many are open. -/
def State.deepen : State → Token → Option State
  | .value stack, .openList => some (.first stack)
  | .value stack, .openObject => some (.firstKey stack)
  | .first stack, .openList => some (.first (.list [] :: stack))
  | .first stack, .openObject => some (.firstKey (.list [] :: stack))
  | _, _ => none

/-- What cannot be read, where a value is due. -/
def State.passOver : State → Option State
  | .value stack => some (.done stack .illegible)
  | .first stack => some (.done (.list [] :: stack) .illegible)
  | _ => none

/-- One part drives the machine one step. -/
def State.skim (s : State) : Part → Option State
  | .token t =>
    match s.step t with
    | some s => some s
    | none => s.deepen t
  | .number => s.passOver
  | .text =>
    match s with
    | .firstKey stack => some (.colon stack [] .illegible)
    | .key stack entries => some (.colon stack entries .illegible)
    | s => s.passOver

/-- The document that the parts spell. -/
def ofParts (ps : List Part) : Option Node := do
  match ← ps.foldlM State.skim (.value []) with
  | .done [] x => some (x.within depthLimit)
  | _ => none

/-- The document that a text holds, as far as it can be read. -/
def skim (text : String) : Option Node := do
  let ps ← partsFrom (.mode .between) [] text.toList
  ofParts ps

end Json

end Provision
