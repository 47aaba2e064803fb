import Planimetry.CommandLine.Machine
import Planimetry.CommandLine.Run

/-!
# The program

The command line in the real world.
-/

namespace Planimetry

namespace CommandLine

/-- The reason that the operating system gives for an error. -/
def reason (e : IO.Error) : String :=
  match e with
  | .noFileOrDirectory _ code details | .inappropriateType _ code details
  | .permissionDenied _ code details | .resourceExhausted _ code details
  | .alreadyExists _ code details =>
    s!"{details} (os error {code})"
  | e => toString e

/-- The outcome of an action, with the reason if it fails. -/
def attempt {α : Type} (action : IO α) : IO (Except String α) := do
  try
    return .ok (← action)
  catch e =>
    return .error (reason e)

/-- What a path leads to, told from an attempt to read it unless it is a device. -/
def pathKind (path : String) : IO PathKind := do
  if path.startsWith "/" && (Machine.bare []).isDevice path then
    return .other
  try
    let _ ← IO.FS.readBinFile path
    return .file
  catch e =>
    match e with
    | .noFileOrDirectory .. => return .missing
    | .inappropriateType .. => return .other
    | _ => return .file

/-- The streams and files of the machine that the program runs on. -/
def machine : World IO where
  input := do
    let bytes ← (← IO.getStdin).readBinToEnd
    return bytes.toList
  print text := do
    IO.print text
    (← IO.getStdout).flush
  complain text := IO.eprint text
  kind path := pathKind path
  read path := attempt do
    let bytes ← IO.FS.readBinFile path
    return bytes.toList
  create path := attempt (IO.FS.writeBinFile path ⟨#[]⟩)
  write path content := attempt (IO.FS.writeBinFile path ⟨content.toArray⟩)

end CommandLine

end Planimetry

/-- Runs the command line. -/
def main (args : List String) : IO UInt32 := do
  let high ← IO.rand 0 4294967295
  let low ← IO.rand 0 4294967295
  let entropy := UInt64.ofNat (high * 4294967296 + low)
  let exit ← Planimetry.CommandLine.run Planimetry.CommandLine.machine entropy args
  return UInt32.ofNat exit.code
