import Provision.Yaml.Token

/-!
# YAML trees

The tree that the tokens of a text spell: scalars, lists and mappings, with their tags and anchors,
and aliases where an anchor is referred to. Every part of a mapping or a list that is left out is an
empty plain scalar.
-/

namespace Provision.Yaml

/-- What is said of a node in front of it. -/
structure Properties where
  anchor : Option String
  tag : Option String
  deriving DecidableEq

/-- A tree. -/
inductive Tree where
  | scalar (properties : Properties) (text : String) (plain : Bool)
  | list (properties : Properties) (items : List Tree)
  | mapping (properties : Properties) (entries : List (Tree × Tree))
  | alias (name : String)

namespace Tree

/-- Nothing is said in front of the node. -/
def bare : Properties := ⟨none, none⟩

/-- A part that is left out. -/
def blank : Tree := .scalar bare "" true

/-- What the handles of tags stand for. -/
abbrev Handles := List (String × String)

/-- The handles that need no directive. -/
def standardHandles : Handles := [("!", "!"), ("!!", "tag:yaml.org,2002:")]

/-- A tag with its handle put in full. -/
def fullTag? (handles : Handles) (handle suffix : String) : Option String :=
  if handle.isEmpty then some suffix
  else (handles.lookup handle).map fun lead => lead ++ suffix

/-- The properties that come next: a tag and an anchor, in either order. -/
def properties? (handles : Handles) : List Token → Option (Properties × List Token)
  | .anchor a :: .tag h s :: ts => do
    let t ← fullTag? handles h s
    some (⟨some a, some t⟩, ts)
  | .tag h s :: .anchor a :: ts => do
    let t ← fullTag? handles h s
    some (⟨some a, some t⟩, ts)
  | .anchor a :: ts => some (⟨some a, none⟩, ts)
  | .tag h s :: ts => do
    let t ← fullTag? handles h s
    some (⟨none, some t⟩, ts)
  | ts => some (bare, ts)

/-- Whether a value of a block mapping is left out before this token. -/
def endsBlockPart : Token → Bool
  | .key | .value | .blockEnd => true
  | _ => false

/-- Whether an item of a list that is not indented is left out before this token. -/
def endsInlineItem : Token → Bool
  | .blockEntry | .key | .value | .blockEnd => true
  | _ => false

/-- Whether an item of a block list is left out before this token. -/
def endsItem : Token → Bool
  | .blockEntry | .blockEnd => true
  | _ => false

/-- Whether a part of a flow mapping is left out before this token. -/
def endsFlowPart : Token → Bool
  | .flowEntry | .flowMappingEnd => true
  | _ => false

/-- Whether a part of a single pair in a flow list is left out before this token. -/
def endsFlowPair : Token → Bool
  | .flowEntry | .flowListEnd => true
  | _ => false

mutual

/-- The node that comes next. `block` allows block lists and mappings, `inline` a block list that is
not indented. At most `fuel` nodes and parts are read one inside or after the other. -/
def node (handles : Handles) : Nat → Bool → Bool → List Token → Option (Tree × List Token)
  | 0, _, _, _ => none
  | _, _, _, .alias name :: ts => some (.alias name, ts)
  | fuel + 1, block, inline, ts => do
    let (ps, ts) ← properties? handles ts
    match ts with
    | .scalar text plain :: ts => some (.scalar ps text plain, ts)
    | .flowListStart :: ts => do
      let (xs, ts) ← flowItems handles fuel true ts
      some (.list ps xs, ts)
    | .flowMappingStart :: ts => do
      let (es, ts) ← flowEntries handles fuel true ts
      some (.mapping ps es, ts)
    | t :: rest =>
      if inline && t == .blockEntry then do
        let (xs, ts) ← inlineItems handles fuel ts
        some (.list ps xs, ts)
      else if block && t == .blockListStart then do
        let (xs, ts) ← blockItems handles fuel rest
        some (.list ps xs, ts)
      else if block && t == .blockMappingStart then do
        let (es, ts) ← blockEntries handles fuel rest
        some (.mapping ps es, ts)
      else if ps = bare then none
      else some (.scalar ps "" true, ts)
    | [] => none

/-- The node that comes next, or what stands for one that is left out. -/
def part (handles : Handles) : Nat → Bool → Bool → (Token → Bool) → List Token →
    Option (Tree × List Token)
  | 0, _, _, _, _ => none
  | _, _, _, _, [] => none
  | fuel + 1, block, inline, leftOut, t :: ts =>
    if leftOut t then some (blank, t :: ts) else node handles fuel block inline (t :: ts)

/-- The items of a block list, up to its end. -/
def blockItems (handles : Handles) : Nat → List Token → Option (List Tree × List Token)
  | 0, _ => none
  | fuel + 1, .blockEntry :: ts => do
    let (x, ts) ← part handles fuel true false endsItem ts
    let (xs, ts) ← blockItems handles fuel ts
    some (x :: xs, ts)
  | _, .blockEnd :: ts => some ([], ts)
  | _, _ => none

/-- The items of a block list that is not indented; something else ends it. -/
def inlineItems (handles : Handles) : Nat → List Token → Option (List Tree × List Token)
  | 0, _ => none
  | fuel + 1, .blockEntry :: ts => do
    let (x, ts) ← part handles fuel true false endsInlineItem ts
    let (xs, ts) ← inlineItems handles fuel ts
    some (x :: xs, ts)
  | _, ts => some ([], ts)

/-- The entries of a block mapping, up to its end. -/
def blockEntries (handles : Handles) : Nat → List Token → Option (List (Tree × Tree) × List Token)
  | 0, _ => none
  | fuel + 1, .key :: ts => do
    let (k, ts) ← part handles fuel true true endsBlockPart ts
    let (v, ts) ← match ts with
      | .value :: ts => part handles fuel true true endsBlockPart ts
      | ts => some (blank, ts)
    let (es, ts) ← blockEntries handles fuel ts
    some ((k, v) :: es, ts)
  | _, .blockEnd :: ts => some ([], ts)
  | _, _ => none

/-- The items of a flow list, up to its end; a comma stands before all but the first. -/
def flowItems (handles : Handles) : Nat → Bool → List Token → Option (List Tree × List Token)
  | 0, _, _ => none
  | _, _, .flowListEnd :: ts => some ([], ts)
  | fuel + 1, first, ts => do
    let ts ← match first, ts with
      | true, ts => some ts
      | false, .flowEntry :: ts => some ts
      | false, _ => none
    match ts with
    | .flowListEnd :: ts => some ([], ts)
    | .key :: ts => do
      let (e, ts) ← flowPair handles fuel ts
      let (xs, ts) ← flowItems handles fuel false ts
      some (.mapping bare [e] :: xs, ts)
    | ts => do
      let (x, ts) ← node handles fuel false false ts
      let (xs, ts) ← flowItems handles fuel false ts
      some (x :: xs, ts)

/-- The key and the value of a single pair in a flow list. Where the key is left out, the token in
its place is passed over. -/
def flowPair (handles : Handles) : Nat → List Token → Option ((Tree × Tree) × List Token)
  | 0, _ => none
  | fuel + 1, ts => do
    let (k, ts) ← match ts with
      | .value :: ts => some (blank, ts)
      | .flowEntry :: ts => some (blank, ts)
      | .flowListEnd :: ts => some (blank, ts)
      | ts => node handles fuel false false ts
    let (v, ts) ← match ts with
      | .value :: ts => part handles fuel false false endsFlowPair ts
      | ts => some (blank, ts)
    some ((k, v), ts)

/-- The entries of a flow mapping, up to its end; a comma stands before all but the first. -/
def flowEntries (handles : Handles) : Nat → Bool → List Token →
    Option (List (Tree × Tree) × List Token)
  | 0, _, _ => none
  | _, _, .flowMappingEnd :: ts => some ([], ts)
  | fuel + 1, first, ts => do
    let ts ← match first, ts with
      | true, ts => some ts
      | false, .flowEntry :: ts => some ts
      | false, _ => none
    match ts with
    | .flowMappingEnd :: ts => some ([], ts)
    | .key :: ts => do
      let (k, ts) ← part handles fuel false false
        (fun t => t == .value || endsFlowPart t) ts
      let (v, ts) ← match ts with
        | .value :: ts => part handles fuel false false endsFlowPart ts
        | ts => some (blank, ts)
      let (es, ts) ← flowEntries handles fuel false ts
      some ((k, v) :: es, ts)
    | ts => do
      let (k, ts) ← node handles fuel false false ts
      let (es, ts) ← flowEntries handles fuel false ts
      some ((k, blank) :: es, ts)

end

/-- The directives before a document: at most one version, which has to be known, and handles. -/
def directives? (version : Bool) (handles : Handles) : List Token → Option (Handles × List Token)
  | .versionDirective major minor :: ts =>
    if version || major != 1 || (minor != 1 && minor != 2) then none
    else directives? true handles ts
  | .tagDirective handle lead :: ts =>
    if (handles.lookup handle).isSome then none
    else directives? version ((handle, lead) :: handles) ts
  | ts => some (handles, ts)

/-- The marks of the end of a document are passed over. -/
def skipEnds : List Token → List Token
  | .documentEnd :: ts => skipEnds ts
  | ts => ts

/-- Whether a document that has been begun holds nothing. -/
def endsDocument : Token → Bool
  | .versionDirective .. | .tagDirective .. | .documentStart | .documentEnd | .streamEnd => true
  | _ => false

/-- The document that begins here with its directives or its mark. -/
def explicitDocument? (fuel : Nat) (ts : List Token) : Option (Tree × List Token) := do
  let (own, ts) ← directives? false [] ts
  match ts with
  | .documentStart :: ts => part (own ++ standardHandles) fuel true false endsDocument ts
  | _ => none

/-- The one document that the tokens spell; nothing, if they spell none. -/
def ofTokens? (ts : List Token) : Option (Option Tree) := do
  let fuel := 4 * ts.length + 8
  match ts with
  | .streamEnd :: _ => some none
  | .versionDirective .. :: _ | .tagDirective .. :: _ | .documentStart :: _ =>
    let (x, ts) ← explicitDocument? fuel ts
    ended x ts
  | ts =>
    let (x, ts) ← node standardHandles fuel true false ts
    ended x ts
where
  /-- The document, if nothing follows it. -/
  ended (x : Tree) (ts : List Token) : Option (Option Tree) :=
    match skipEnds ts with
    | [.streamEnd] => some (some x)
    | _ => none

end Tree

end Provision.Yaml
