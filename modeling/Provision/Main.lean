import Provision.Command.Program

/-!
# The command line

Carries out what the arguments ask for on the machine that it runs on. This build is on no network:
every request goes unanswered. So no token is ever issued, and no clock is needed to tell whether
one is still good.
-/

namespace Provision

/-- What is said of a file that cannot be read or written. -/
def fileReason (e : IO.Error) : String :=
  match e with
  | .noFileOrDirectory .. => "No such file or directory (os error 2)"
  | .permissionDenied .. => "Permission denied (os error 13)"
  | .inappropriateType .. => "Is a directory (os error 21)"
  | e => toString e

/-- Random bits laid out as an identifier: eight, four, four, four and twelve digits. -/
def randomIdentifier : IO String := do
  let digit : IO Char := do return (Nat.digitChar (← IO.rand 0 15))
  let digits (n : Nat) : IO String := do
    return String.ofList (← (List.range n).mapM fun _ => digit)
  let variant := Nat.digitChar (8 + (← IO.rand 0 3))
  return String.intercalate "-"
    [← digits 8, ← digits 4, "4" ++ (← digits 3), String.singleton variant ++ (← digits 3),
     ← digits 12]

/-- The machine that this runs on. -/
def thisMachine (password : Option String) : Machine IO where
  readFile path := do
    try return .ok (← IO.FS.readFile path)
    catch e => return .error (fileReason e)
  writeFile path text := do
    try return .ok (← IO.FS.writeFile path text)
    catch e => return .error (fileReason e)
  print text := do (← IO.getStdout).putStr text
  password := password
  network := .unreachable (pure ⟨0, 0⟩)
  pause ms := IO.sleep (min ms (Nat.pow 2 32 - 1)).toUInt32
  newWorkloadId := randomIdentifier

end Provision

/-- Runs the program. -/
def main (arguments : List String) : IO UInt32 := do
  let password ← IO.getEnv Provision.Settings.passwordVariable
  let (code, told) ← (Provision.thisMachine password).obey arguments
  (← IO.getStderr).putStr told
  return code.toUInt32
