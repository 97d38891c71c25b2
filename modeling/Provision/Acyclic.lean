/-!
# Acyclic relations

A relation on finitely many names has no cycle if every name can be peeled off in turn, each time
one all of whose targets are gone. What cannot be peeled is the residue: every name in it has a
target in it, so the relation has a cycle exactly if the residue holds a name.
-/

namespace Provision.Acyclic

variable (targets : String → List String)

/-- The names that still have a target among the names. -/
def peel (names : List String) : List String :=
  names.filter fun n => (targets n).any fun t => names.contains t

theorem length_peel_le (names : List String) : (peel targets names).length ≤ names.length :=
  List.length_filter_le ..

/-- The names that are left when no more can be peeled off. -/
def residue (names : List String) : List String :=
  if (peel targets names).length < names.length then residue (peel targets names) else names
termination_by names.length

/-- A step along the relation inside the residue. -/
def next (names : List String) (n : String) : String :=
  ((targets n).find? fun t => names.contains t).getD n

/-- A name on a cycle of the relation, if there is a cycle: a walk inside the residue has come to
one after as many steps as the residue has names. -/
def onCycle? (names : List String) : Option String :=
  let left := residue targets names
  left.head?.map fun start => Nat.repeat (next targets left) left.length start

end Provision.Acyclic
