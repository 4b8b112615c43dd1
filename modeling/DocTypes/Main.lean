/-
  The command on the files of the system. There is no network here: a page that is not cached
  counts as one that cannot be fetched.
-/
import DocTypes.Run

namespace DocTypes

/-- The fault that a failed system call reports. -/
def Fault.ofError (e : IO.Error) : Fault :=
  match e with
  | .noFileOrDirectory _ _ _ => .notFound
  | .alreadyExists _ _ _ => .exists_
  | .inappropriateType _ code _ => if code == 20 then .notADirectory else .isADirectory
  | e => .other (toString e)

/-- The result of an action that may fail. -/
def attempt {α : Type} (act : IO α) : IO (Except Fault α) := do
  match ← act.toBaseIO with
  | .ok a => return .ok a
  | .error e => return .error (.ofError e)

instance : Storage IO where
  isFile path := do
    let path := (← IO.currentDir) / String.ofList path
    match ← attempt path.metadata with
    | .ok data => return data.type == .file
    | .error _ => return false
  read path := attempt (IO.FS.readBinFile (String.ofList path))
  makeDirs path := if path.isEmpty then return .ok () else
    attempt (IO.FS.createDirAll (String.ofList path))
  write path content := attempt (IO.FS.writeBinFile (String.ofList path) content)
  fetch _ _ := return none

end DocTypes

def main (args : List String) : IO UInt32 := do
  let outcome ← (DocTypes.Run.commandLine args : IO DocTypes.Outcome)
  IO.print (String.ofList outcome.stdout)
  IO.eprint (String.ofList outcome.stderr)
  return outcome.exitCode.toUInt32
