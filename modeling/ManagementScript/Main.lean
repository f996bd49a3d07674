import Std.Time.DateTime.Timestamp
import ManagementScript.CommandLine

/-! The program: compiles the management section of a document and prints its script. -/

namespace ManagementScript

/-- The reason that the system gives for a failure. -/
def accessError : IO.Error → AccessError
  | .noFileOrDirectory .. => .noSuchEntry
  | .permissionDenied _ 13 _ => .permissionDenied
  | .inappropriateType _ 20 _ => .notDirectory
  | .inappropriateType _ 21 _ => .isDirectory
  | .resourceExhausted _ number text | .alreadyExists _ number text | .noSuchThing _ number text
  | .permissionDenied _ number text | .inappropriateType _ number text
  | .invalidArgument _ number text => .other number.toNat text
  | e => .other 0 (toString e)

/-- What a path leads to in the file system. -/
def entryOf (path : String) : IO Entry := do
  match ← (IO.FS.realPath path).toBaseIO with
  | .error _ => return .missing
  | .ok place =>
    let data ← place.metadata
    if data.type != .file then return .directory
    match ← (IO.FS.readBinFile place).toBaseIO with
    | .ok bytes => return .file place.toString bytes
    | .error e => return .unreadable place.toString data.byteSize.toNat (accessError e)

/-- Writes a file to the file system. -/
def writeTo (path : String) (bytes : ByteArray) : IO (Except AccessError Unit) := do
  match ← (IO.FS.writeBinFile path bytes).toBaseIO with
  | .ok () => return .ok ()
  | .error e => return .error (accessError e)

/-- The variables that preferences are taken from, as far as they are set. -/
def readEnvironment : IO Environment := do
  let found ← Preferences.variableNames.mapM fun name => return (← IO.getEnv name).map (name, ·)
  return found.filterMap id

/-- Runs the program in the file system. -/
def runInFileSystem (arguments : List String) : IO Outcome := do
  let now ← Std.Time.Timestamp.now
  let timing : Timing := ⟨⟨now.toSecondsSinceUnixEpoch.val, now.val.nano.val.toNat⟩, 0⟩
  CommandLine.run ⟨entryOf, writeTo⟩ (← readEnvironment) timing arguments

end ManagementScript

def main (arguments : List String) : IO UInt32 := do
  let outcome ← ManagementScript.runInFileSystem arguments
  IO.print outcome.output
  IO.eprint outcome.errors
  return outcome.status.toUInt32
