import Tide.Command.Basic

/-!
# The program

Runs a command line on the disk and the standard streams.
-/
namespace Tide.Disk

/-- The bytes of a byte array. -/
def bytes (data : ByteArray) : Bytes := data.data.toList

def array (s : Bytes) : ByteArray := ⟨s.toArray⟩

/-- What an error of the system means for a file. The system tells the two kinds of a path that is
no file apart by a code, which some of its calls give with the opposite sign. -/
def faultOf (error : IO.Error) : FileFault :=
  match error with
  | .noFileOrDirectory .. => .missing
  | .inappropriateType _ code _ => if code = 21 ∨ code = -21 then .isDirectory else .notDirectory
  | .permissionDenied .. => .other (utf8 "permission denied")
  | other => .other (utf8 (toString other))

def read (path : Bytes) : IO (Except FileFault Bytes) := do
  try
    let data ← IO.FS.readBinFile (Utf8.text path)
    return .ok (bytes data)
  catch error => return .error (faultOf error)

partial def readAll (stream : IO.FS.Stream) (before : ByteArray) : IO ByteArray := do
  let chunk ← stream.read 65536
  if chunk.isEmpty then return before
  readAll stream (before ++ chunk)

/-- An unset variable counts as empty. -/
def fromEnvironment (name : String) : IO Bytes := do
  return utf8 ((← IO.getEnv name).getD "")

def host : IO (Host IO) := do
  let directory ← try
      let place ← IO.currentDir
      pure (some (utf8 place.toString))
    catch _ => pure none
  return {
    directory
    settings := Host.settingsPlace (← fromEnvironment "XDG_CONFIG_HOME") (← fromEnvironment "HOME")
    read
    input := do return bytes (← readAll (← IO.getStdin) .empty) }

end Tide.Disk

def main (args : List String) : IO UInt32 := do
  let done ← Tide.command (← Tide.Disk.host) (args.map Tide.utf8)
  (← IO.getStdout).write (Tide.Disk.array done.output)
  (← IO.getStderr).write (Tide.Disk.array done.errors)
  return done.status.toUInt32
