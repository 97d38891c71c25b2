import Provision.Yaml.Tree
import Provision.Yaml.Resolution

/-!
# Read YAML

A text is one document. Every alias is the node that its anchor stands in front of; an alias inside
that very node makes no document, nor do aliases that would write it out beyond measure.
-/

namespace Provision.Yaml

/-- A document, how deep it is nested, and how many aliases there are in it once it is written
out. -/
structure Composed where
  node : Node
  depth : Nat
  aliases : Nat

/-- The anchors seen so far. An anchor is numbered by how many names there are before it. -/
structure Anchors where
  numbers : Table Nat
  nodes : List (Nat × Composed)

namespace Anchors

/-- Numbers the anchor in front of a node, if there is one. -/
def enter (a : Anchors) : Option String → Option Nat × Anchors
  | none => (none, a)
  | some name => (some a.numbers.size, { a with numbers := a.numbers.put name a.numbers.size })

/-- Keeps the node that an anchor stands in front of. -/
def keep (a : Anchors) (number : Option Nat) (c : Composed) : Anchors :=
  match number with
  | none => a
  | some n => { a with nodes := (n, c) :: a.nodes }

/-- The node that an alias stands for. -/
def find? (a : Anchors) (name : String) : Option Composed :=
  match a.numbers.get? name with
  | none => none
  | some n => (a.nodes.find? fun e => e.1 == n).map Prod.snd

end Anchors

mutual

/-- The document of a tree. -/
def compose (a : Anchors) : Tree → Option (Composed × Anchors)
  | .alias name => (a.find? name).map fun c => ({ c with aliases := c.aliases + 1 }, a)
  | .scalar ps text plain =>
    let (number, a) := a.enter ps.anchor
    let c : Composed := ⟨scalarNode ps.tag text plain, 0, 0⟩
    some (c, a.keep number c)
  | .list ps xs => do
    let (number, a) := a.enter ps.anchor
    let (ns, depth, aliases, a) ← composeItems a xs
    let c : Composed := ⟨collectionNode ps.tag (.list ns), depth + 1, aliases⟩
    some (c, a.keep number c)
  | .mapping ps es => do
    let (number, a) := a.enter ps.anchor
    let (ns, depth, aliases, a) ← composeEntries a es
    let c : Composed := ⟨collectionNode ps.tag (.mapping ns), depth + 1, aliases⟩
    some (c, a.keep number c)

/-- The documents of trees in order, their depth and their aliases. -/
def composeItems (a : Anchors) : List Tree → Option (List Node × Nat × Nat × Anchors)
  | [] => some ([], 0, 0, a)
  | x :: xs => do
    let (c, a) ← compose a x
    let (ns, depth, aliases, a) ← composeItems a xs
    some (c.node :: ns, max c.depth depth, c.aliases + aliases, a)

/-- The documents of keys and values in order, their depth and their aliases. -/
def composeEntries (a : Anchors) :
    List (Tree × Tree) → Option (List (Node × Node) × Nat × Nat × Anchors)
  | [] => some ([], 0, 0, a)
  | (k, v) :: es => do
    let (k, a) ← compose a k
    let (v, a) ← compose a v
    let (ns, depth, aliases, a) ← composeEntries a es
    some ((k.node, v.node) :: ns, max (max k.depth v.depth) depth,
      k.aliases + v.aliases + aliases, a)

end

mutual

/-- The number of marks that a tree is made of: one for a leaf, two around a list or a mapping. -/
def marks : Tree → Nat
  | .alias _ => 1
  | .scalar .. => 1
  | .list _ xs => marksItems xs + 2
  | .mapping _ es => marksEntries es + 2

@[inherit_doc marks]
def marksItems : List Tree → Nat
  | [] => 0
  | x :: xs => marks x + marksItems xs

@[inherit_doc marks]
def marksEntries : List (Tree × Tree) → Nat
  | [] => 0
  | (k, v) :: es => marks k + marks v + marksEntries es

end

/-- The most lists and mappings that may be nested. -/
def depthLimit : Nat := 128

/-- The document that a text holds; a text that holds none is an empty scalar. -/
def read (text : String) : Option Node := do
  let ts ← tokens? text
  match ← Tree.ofTokens? ts with
  | none => some (.scalar .null (some ""))
  | some tree =>
    let (c, _) ← compose ⟨.empty, []⟩ tree
    if c.depth ≤ depthLimit ∧ c.aliases ≤ 100 * marks tree then some c.node else none

end Provision.Yaml
