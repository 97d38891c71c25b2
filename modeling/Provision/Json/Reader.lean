import Provision.Json.Lexer

/-!
# Read JSON

The tokens of a text drive a machine that keeps the lists and objects not yet closed. A text holds
one document, and at most 127 of them are open at once.
-/

namespace Provision.Json

/-- A list or an object that is not closed yet; what it holds is kept last first. -/
inductive Open where
  | list (items : List Node)
  | object (entries : List (Node × Node)) (name : Node)

/-- What may come next. -/
inductive State where
  /-- A value. -/
  | value (stack : List Open)
  /-- A value, or the end of a list that holds nothing yet. -/
  | first (stack : List Open)
  /-- A key, or the end of an object that holds nothing yet. -/
  | firstKey (stack : List Open)
  | key (stack : List Open) (entries : List (Node × Node))
  | colon (stack : List Open) (entries : List (Node × Node)) (name : Node)
  /-- A value is complete. -/
  | done (stack : List Open) (node : Node)

/-- The most lists and objects that may be open at once. -/
def depthLimit : Nat := 127

/-- Opens a list or an object, if one more may be open. -/
def State.descend (stack : List Open) (state : State) : Option State :=
  if stack.length < depthLimit then some state else none

/-- A token where a value is due. -/
def State.beginValue (stack : List Open) : Token → Option State
  | .openList => State.descend stack (.first stack)
  | .openObject => State.descend stack (.firstKey stack)
  | .atom (.string s) => some (.done stack (Node.ofString s))
  | .atom m => some (.done stack (.scalar m none))
  | _ => none

/-- One token drives the machine one step. -/
def State.step : State → Token → Option State
  | .value stack, t => State.beginValue stack t
  | .first stack, .closeList => some (.done stack (.list []))
  | .first stack, t => State.beginValue (.list [] :: stack) t
  | .firstKey stack, .closeObject => some (.done stack (.mapping []))
  | .firstKey stack, .atom (.string s) => some (.colon stack [] (Node.ofString s))
  | .key stack entries, .atom (.string s) => some (.colon stack entries (Node.ofString s))
  | .colon stack entries name, .colon => some (.value (.object entries name :: stack))
  | .done (.list items :: stack) x, .comma => some (.value (.list (x :: items) :: stack))
  | .done (.list items :: stack) x, .closeList =>
    some (.done stack (.list (x :: items).reverse))
  | .done (.object entries name :: stack) x, .comma => some (.key stack ((name, x) :: entries))
  | .done (.object entries name :: stack) x, .closeObject =>
    some (.done stack (.mapping ((name, x) :: entries).reverse))
  | _, _ => none

/-- The document that the tokens spell. -/
def ofTokens (ts : List Token) : Option Node := do
  match ← ts.foldlM State.step (.value []) with
  | .done [] x => some x
  | _ => none

/-- The document that a text holds. -/
def read (text : String) : Option Node := do
  let ts ← lex text
  ofTokens ts

/-- The value that a text holds. -/
def readValue (text : String) : Option Value := do
  let n ← read text
  n.value?

end Provision.Json
