import ScriptFront.Command.Run

/-!
# The program

Reads arguments and files, prints what the command comes to.
-/

namespace ScriptFront

/-- What the system says, as a fault. -/
def FileFault.ofSystem (e : IO.Error) : FileFault :=
  match e with
  | .noFileOrDirectory _ code reason => ⟨code.toNat, reason⟩
  | .alreadyExists _ code reason => ⟨code.toNat, reason⟩
  | .inappropriateType _ code reason => ⟨code.toNat, reason⟩
  | .permissionDenied _ code reason => ⟨code.toNat, reason⟩
  | .resourceExhausted _ code reason => ⟨code.toNat, reason⟩
  | .invalidArgument _ code reason => ⟨code.toNat, reason⟩
  | .otherError code reason => ⟨code.toNat, reason⟩
  | e => ⟨0, toString e⟩

/-- Do something with files, and keep what goes wrong. -/
def keepFault {α : Type} (act : IO α) : IO (Except FileFault α) := do
  try return .ok (← act) catch e => return .error (.ofSystem e)

instance : FileAccess IO where
  read path := keepFault (do return (← IO.FS.readBinFile path).data)
  makeDirs path := keepFault (IO.FS.createDirAll path)
  write path content := keepFault (IO.FS.writeBinFile path ⟨content⟩)

end ScriptFront

open ScriptFront in
/-- Run the program. -/
def main (args : List String) : IO UInt32 := do
  let errors ← IO.getStderr
  let outcome : Outcome ← runCommand args (← errors.isTty)
  (← IO.getStdout).putStr outcome.stdout
  errors.putStr outcome.stderr
  return UInt32.ofNat outcome.status
