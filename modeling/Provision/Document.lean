import Provision.Json.Value

/-!
# Documents

What a reader of text delivers before anyone asks for a type: scalars, lists and mappings, with the
entries of a mapping in written order and perhaps twice. A scalar remembers its spelling where the
format lets a plain scalar serve as text.

The rest of the module asks for types. A record may be written as a mapping of its fields, each at
most once, or as the list of its fields in order; a field that may be missing has a default.
-/

namespace Provision

/-- A scalar with its meaning settled. -/
inductive Scalar where
  | null
  | bool (b : Bool)
  | int (i : Int)
  | float (x : Binary64)
  | string (s : String)
  deriving DecidableEq

/-- A document. `spelling` is the text of a scalar that may be taken as text. A node with a mark of
its own kind is `marked`: it fits a place that names its type, but not a place that takes any
value. -/
inductive Node where
  | scalar (meaning : Scalar) (spelling : Option String)
  | list (items : List Node)
  | mapping (entries : List (Node × Node))
  | marked (inner : Node)

namespace Node

instance : Inhabited Node := ⟨.scalar .null none⟩

/-- A text node. -/
def ofString (s : String) : Node := .scalar (.string s) (some s)

mutual

/-- The document of a value. -/
def ofValue : Value → Node
  | .null => .scalar .null none
  | .bool b => .scalar (.bool b) none
  | .int i => .scalar (.int i) none
  | .float x => .scalar (.float x) none
  | .string s => ofString s
  | .list xs => .list (ofItems xs)
  | .object ms => .mapping (ofMembers ms)

@[inherit_doc ofValue]
def ofItems : List Value → List Node
  | [] => []
  | x :: xs => ofValue x :: ofItems xs

@[inherit_doc ofValue]
def ofMembers : List (String × Value) → List (Node × Node)
  | [] => []
  | (k, v) :: ms => (ofString k, ofValue v) :: ofMembers ms

end

/-- The text of a scalar that may serve as text. -/
def text? : Node → Option String
  | .scalar _ spelling => spelling
  | .marked (.scalar _ spelling) => spelling
  | _ => none

/-- The value of a scalar: a whole number has to fit sixty-four bits. -/
def scalarValue? : Scalar → Option Value
  | .null => some .null
  | .bool b => some (.bool b)
  | .int i => if Binary64.int64Min ≤ i ∧ i < Nat.pow 2 64 then some (.int i) else none
  | .float x => some (Value.ofFloat x)
  | .string s => some (.string s)

mutual

/-- The document as a value; the last entry of a name stays. -/
def value? : Node → Option Value
  | .scalar m _ => scalarValue? m
  | .list xs => (items? xs).map .list
  | .mapping es => (members? es []).map .object
  | .marked _ => none

/-- Items as values. -/
def items? : List Node → Option (List Value)
  | [] => some []
  | x :: xs => do
    let v ← value? x
    let vs ← items? xs
    some (v :: vs)

/-- Entries as members, put to those already there. -/
def members? : List (Node × Node) → List (String × Value) → Option (List (String × Value))
  | [], done => some done
  | (k, x) :: es, done => do
    let name ← text? k
    let v ← value? x
    members? es (Entries.put name v done)

end

/-- A scalar whose spelling is forgotten unless it is text. -/
def settled (m : Scalar) : Node :=
  match m with
  | .string s => ofString s
  | m => .scalar m none

mutual

/-- The document once its scalars have settled, as where the type of a record depends on one of
its entries: a plain number no longer serves as text, an empty scalar no longer as a mapping. -/
def settle? : Node → Option Node
  | .scalar m _ => (scalarValue? m).map fun _ => settled m
  | .list xs => (settleItems? xs).map .list
  | .mapping es => (settleEntries? es).map .mapping
  | .marked _ => none

@[inherit_doc settle?]
def settleItems? : List Node → Option (List Node)
  | [] => some []
  | x :: xs => do
    let y ← settle? x
    let ys ← settleItems? xs
    some (y :: ys)

@[inherit_doc settle?]
def settleEntries? : List (Node × Node) → Option (List (Node × Node))
  | [] => some []
  | (k, x) :: es => do
    let l ← settle? k
    let y ← settle? x
    let fs ← settleEntries? es
    some ((l, y) :: fs)

end

mutual

/-- How deep lists and mappings are nested. -/
def depth : Node → Nat
  | .scalar .. => 0
  | .list xs => depthItems xs + 1
  | .mapping es => depthEntries es + 1
  | .marked x => depth x + 1

@[inherit_doc depth]
def depthItems : List Node → Nat
  | [] => 0
  | x :: xs => max (depth x) (depthItems xs)

@[inherit_doc depth]
def depthEntries : List (Node × Node) → Nat
  | [] => 0
  | (_, x) :: es => max (depth x) (depthEntries es)

end

/-- The truth value of a node that is one. -/
def bool? : Node → Option Bool
  | .scalar (.bool b) _ => some b
  | _ => none

/-- A whole number below `bound`. -/
def nat? (bound : Nat) : Node → Option Nat
  | .scalar (.int i) _ => if 0 ≤ i ∧ i < bound then some i.toNat else none
  | _ => none

/-- Any number as floating point. -/
def float? : Node → Option Binary64
  | .scalar (.int i) _ => some (Binary64.ofInt i)
  | .scalar (.float x) _ => some x
  | _ => none

/-- Whether the node says that there is nothing. -/
def isNull : Node → Bool
  | .scalar .null _ => true
  | _ => false

/-- An optional item: nothing, or what `f` reads. -/
def option? (f : Node → Option α) (n : Node) : Option (Option α) :=
  if n.isNull then some none else (f n).map some

/-- Whether the node is a scalar without any text, which serves as an empty list or mapping. -/
def isBlank : Node → Bool
  | .scalar .null spelling => spelling == some ""
  | _ => false

/-- Whether the node is written as a list. -/
def isList : Node → Bool
  | .list _ => true
  | .marked (.list _) => true
  | _ => false

/-- The items of a list. -/
def list? (f : Node → Option α) : Node → Option (List α)
  | .list xs => xs.mapM f
  | .marked (.list xs) => xs.mapM f
  | n => if n.isBlank then some [] else none

/-- The entries of a mapping. -/
def entries? : Node → Option (List (Node × Node))
  | .mapping es => some es
  | .marked (.mapping es) => some es
  | n => if n.isBlank then some [] else none

/-- A mapping from names, the last of each name staying. -/
def table? (f : Node → Option α) (n : Node) : Option (Table α) := do
  let es ← n.entries?
  let fs ← es.mapM fun (k, x) => do
    let name ← text? k
    let a ← f x
    some (name, a)
  some (Table.ofList fs)

/-- A set of texts, written as a list. -/
def nameSet? (n : Node) : Option NameSet := (n.list? text?).map NameSet.ofNames

/-- The fields of a record that are written down, under their names. -/
structure Fields where
  written : List (String × Node)

/-- The field that a key names: by its text or, as a settled whole number, by its place. A place
outside the record names no field. -/
def fieldName? (names : List String) (k : Node) : Option String :=
  match text? k, k with
  | some name, _ => some name
  | none, .scalar (.int i) _ => if 0 ≤ i then some (names[i.toNat]?.getD "") else none
  | none, _ => none

/-- The fields of a record written as a mapping or, in order, as a list. A list may not be longer
than the record. -/
def fields? (names : List String) (n : Node) : Option Fields :=
  let ofList (xs : List Node) : Option Fields :=
    if xs.length ≤ names.length then some ⟨names.zip xs⟩ else none
  match n with
  | .list xs => ofList xs
  | .marked (.list xs) => ofList xs
  | n => do
    let es ← n.entries?
    let fs ← es.mapM fun (k, x) => (fieldName? names k).map fun name => (name, x)
    some ⟨fs⟩

namespace Fields

/-- The node of a field, if it is written; a field may not be written twice. -/
def find? (fs : Fields) (name : String) : Option (Option Node) :=
  match fs.written.filter fun e => e.1 == name with
  | [] => some none
  | [(_, x)] => some (some x)
  | _ => none

/-- A field that has to be written. -/
def required (fs : Fields) (name : String) (f : Node → Option α) : Option α := do
  let x ← fs.find? name
  f (← x)

/-- A field with a default. -/
def withDefault (fs : Fields) (name : String) (dflt : α) (f : Node → Option α) : Option α := do
  match ← fs.find? name with
  | none => some dflt
  | some x => f x

/-- A field that may be missing or nothing. -/
def optional (fs : Fields) (name : String) (f : Node → Option α) : Option (Option α) :=
  fs.withDefault name none (option? f)

end Fields

/-- The name of a variant without content: a text, or a mapping of that text to nothing. -/
def variant? : Node → Option String
  | .scalar (.string s) _ => some s
  | .mapping [(k, x)] =>
    match x with
    | .scalar .null _ => text? k
    | .mapping [] => text? k
    | _ => none
  | _ => none

/-- A record that one of its entries gives the kind of: the kind, and the record without that
entry, settled. Written as a list, the kind comes first. -/
def tagged? (tag : String) : Node → Option (String × Node)
  | .mapping es =>
    match es.filter fun e => text? e.1 == some tag with
    | [(_, k)] => do
      let kind ← text? k
      let rest ← settleEntries? (es.filter fun e => text? e.1 != some tag)
      some (kind, .mapping rest)
    | _ => none
  | .list (k :: xs) => do
    let kind ← text? k
    let rest ← settleItems? xs
    some (kind, .list rest)
  | _ => none

end Node

end Provision
