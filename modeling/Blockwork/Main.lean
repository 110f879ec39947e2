import Blockwork.Command.Perform

/-! The program on the command line. -/

namespace Blockwork

/-- No loop goes on for more rounds. -/
def roundLimit : Nat := Nat.pow 2 64

namespace RealDisk

def reasonOf (e : IO.Error) : FileError :=
  match e with
  | .noFileOrDirectory .. => .absent
  | .inappropriateType _ code _ => if code = 21 then .folder else .underFile
  | .permissionDenied .. => .other "Permission denied (os error 13)"
  | e => .other (toString e)

def isFile (path : String) : IO Bool := do
  try
    let place ← IO.FS.realPath path
    return (← place.metadata).type matches .file
  catch _ => return false

def readText (path : String) : IO (Except FileError String) := do
  try
    let content ← IO.FS.readBinFile path
    match String.fromUTF8? content with
    | some text => return .ok text
    | none => return .error .notText
  catch e => return .error (reasonOf e)

/-- The names in a folder. A link to a folder counts as a folder. -/
def list (path : String) : IO (List (String × Bool)) := do
  try
    let place ← IO.FS.realPath path
    (← place.readDir).toList.mapM fun entry => return (entry.fileName, ← entry.path.isDir)
  catch _ => return []

def disk : Disk IO := ⟨isFile, readText, list⟩

end RealDisk
end Blockwork

def main (args : List String) : IO UInt32 := do
  let output ← Blockwork.Command.performArgs Blockwork.RealDisk.disk Blockwork.roundLimit args
  (← IO.getStdout).putStr output.stdout
  (← IO.getStderr).putStr output.stderr
  return UInt32.ofNat output.code
