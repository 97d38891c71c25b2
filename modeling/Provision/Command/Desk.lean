import Provision.Command.Program

/-!
# A machine in memory

A folder of files and an output, to carry out commands without touching anything. A path leads
through the names of folders; a folder is there as long as a file is in it.
-/

namespace Provision

/-- The files by path, and what has been printed. -/
structure Desk where
  files : Table String
  printed : String

namespace Desk

/-- What is said of a file that is not there. -/
def missing : String := "No such file or directory (os error 2)"

/-- What is said of a folder where a file should be. -/
def isFolder : String := "Is a directory (os error 21)"

/-- What is said of a path through something that is no folder. -/
def noFolder : String := "Not a directory (os error 20)"

/-- The names that a path leads through. -/
def steps (path : String) : List String :=
  ((path.toList.splitOn '/').map String.ofList).filter fun s => s != "" && s != "."

/-- The path that leads through names. -/
def join (names : List String) : String := String.intercalate "/" names

/-- Whether there is a folder that names lead to. -/
def hasFolder (d : Desk) (names : List String) : Bool :=
  names.isEmpty || d.files.names.any fun file =>
    let ns := steps file
    names.length < ns.length && names.isPrefixOf ns

/-- Whether a file stands in the way to what names lead to. -/
def isBlocked (d : Desk) (names : List String) : Bool :=
  (List.range names.length).any fun n => d.files.contains (join (names.take n))

/-- Why there is no file that names lead to. -/
def whyNot (d : Desk) (names : List String) : String :=
  if d.hasFolder names then isFolder else if d.isBlocked names then noFolder else missing

/-- Reads a file. -/
def read (d : Desk) (path : String) : Except String String :=
  match d.files.get? (join (steps path)) with
  | some text => if path.endsWith "/" then .error noFolder else .ok text
  | none => .error (d.whyNot (steps path))

/-- Writes a file; its folder has to be there. -/
def write (d : Desk) (path text : String) : Except String Unit × Desk :=
  let names := steps path
  if d.hasFolder names || path.endsWith "/" then (.error isFolder, d)
  else if d.hasFolder names.dropLast then
    (.ok (), { d with files := d.files.put (join names) text })
  else (.error (if d.isBlocked names then noFolder else missing), d)

/-- The machine, off any network. -/
def machine (password : Option String) (workloadId : String) (now : Instant) :
    Machine (StateM Desk) where
  readFile path := do return (← get).read path
  writeFile path text := modifyGet fun d => d.write path text
  print text := modify fun d => { d with printed := d.printed ++ text }
  password := password
  network := .unreachable (pure now)
  pause _ := pure ()
  newWorkloadId := pure workloadId

end Desk

end Provision
