import HostScript.CommandLine

/-!
# HostScript.Main

The command: reads the files that its arguments name, and shows or writes what comes of them.
-/

namespace HostScript.CommandLine

/-- The wording of a failed file operation. -/
def reason (error : IO.Error) : String :=
  match error with
  | .noFileOrDirectory .. => "No such file or directory (os error 2)"
  | .permissionDenied .. => "Permission denied (os error 13)"
  | .inappropriateType .. => "Is a directory (os error 21)"
  | other => toString other

/-- The text of a file, or the reason why there is none. -/
def readText (path : String) : IO (Except String String) := do
  match ← (IO.FS.readFile path).toBaseIO with
  | .ok text => return .ok text
  | .error error => return .error (reason error)

/-- Shows an outcome and returns its exit code. -/
def present (outcome : Outcome) : IO UInt32 := do
  (← IO.getStdout).putStr outcome.stdout
  (← IO.getStderr).putStr outcome.stderr
  return UInt32.ofNat outcome.code

end HostScript.CommandLine

open HostScript CommandLine in
/-- Runs the command. -/
def main (arguments : List String) : IO UInt32 := do
  match Invocation.ofArguments arguments with
  | .error refusal => present (.ofRefusal refusal)
  | .ok invocation =>
    let script ← readText invocation.script
    let description ← readText (invocation.environment.getD "")
    let files : Files := ⟨fun _ => script, fun path => environmentOfText path description⟩
    match invocation.run files with
    | .done outcome => present outcome
    | .write path bytes =>
      match ← (IO.FS.writeBinFile path bytes.toByteArray).toBaseIO with
      | .ok () => present (written path none)
      | .error error => present (written path (some (reason error)))
