import ManagementScript.Diagnostics.Logged
import ManagementScript.Document.LoadError
import ManagementScript.Document.Metadata
import ManagementScript.Document.Store
import ManagementScript.Settings.Preferences

/-!
Loading a document. The checks come in a fixed order, and the first one that fails decides: the path,
the size, the extension, the encoding, and the number of lines.
-/

namespace ManagementScript.Document

/-- Emits an error event about a load error and fails with it. -/
def refuse (e : LoadError) (message : String) (facts : List (String × String)) : Logged LoadError α :=
  Logged.refuse e ((LogEvent.error e.code message).withFacts facts)

/-- A duration in milliseconds, given in nanoseconds. -/
def milliseconds (nanoseconds : Nat) : String := Text.decimal 2 nanoseconds 1000000

/-- The path and the size of the file that an entry is. -/
def fileOf (path : String) : Entry → Logged LoadError (String × Nat)
  | .missing => refuse (.fileNotFound path) "File not found" [("path", path)]
  | .directory => refuse (.invalidPath path) "Path is not a file" [("path", path)]
  | .file place bytes => return (place, bytes.size)
  | .unreadable place size _ => return (place, size)

/-- Emits what is known about a file before it is read. -/
def describe (m : Metadata) : Logged LoadError Unit :=
  Logged.emit ((LogEvent.debug "File metadata collected").withFacts [
    ("size_bytes", toString m.size), ("size_human", m.readableSize),
    ("extension", m.extension?.getD "none"), ("is_large_document", toString m.isLarge)])

/-- The size and the extension of a file have to be such as is wanted. -/
def requireAdmissible (p : DocumentPreferences) (path : String) (m : Metadata) : Logged LoadError Unit := do
  if Limits.documentSize < m.size then
    refuse (.fileTooLarge m.size Limits.documentSize) "Document exceeds compile-time maximum size"
      [("file", path), ("size_human", m.readableSize), ("limit_human", readableSize Limits.documentSize)]
  else if m.size = 0 then refuse .emptyFile "File is empty" [("file", path)]
  else if p.requireXmlExtension && !m.isXml then
    refuse (.invalidExtension m.extension?) "File does not have required .xml extension"
      [("file", path), ("extension", m.extension?.getD "none")]

/-- Fails because the file can not be read as a text. -/
def unread (path : String) (e : LoadError) (problem : String) : Logged LoadError α :=
  refuse e "Failed to read document" [("file", path), ("io_error", problem)]

/-- The text of the file that an entry is. -/
def sourceOf (path : String) : Entry → Logged LoadError String
  | .file place bytes =>
    match String.fromUTF8? bytes with
    | some source => return source
    | none => unread path (.invalidEncoding place) "stream did not contain valid UTF-8"
  | .unreadable place _ .permissionDenied =>
    unread path (.permissionDenied place) AccessError.permissionDenied.message
  | .unreadable place _ e =>
    unread path (.storageFailure s!"Failed to read file '{place}': {e.message}") e.message
  | .missing | .directory =>
    unread path (.fileNotFound path) AccessError.noSuchEntry.message

/-- The facts about a loaded document that are logged. -/
def loadedEvent (p : DocumentPreferences) (path : String) (d : Document) (elapsed : Nat) : LogEvent :=
  let m := d.metadata
  if p.logPerformance then
    (LogEvent.success .documentLoaded "File processed successfully with performance metrics").withFacts [
      ("file", path), ("size_bytes", toString m.size), ("size_human", m.readableSize),
      ("lines", toString m.lineCount), ("chars", toString d.source.length),
      ("duration_ms", milliseconds elapsed), ("is_large_document", toString m.isLarge)]
  else
    (LogEvent.success .documentLoaded "File processed successfully").withFacts [
      ("file", path), ("size_bytes", toString m.size), ("lines", toString m.lineCount)]

/-- Loads the document at a path, which leads to `entry`. The work takes `elapsed` nanoseconds. -/
def load (p : DocumentPreferences) (path : String) (entry : Entry) (elapsed : Nat) :
    Logged LoadError Document := do
  Logged.emit ((LogEvent.debug "Starting file processing").withFact "file" path)
  if path.isEmpty then refuse (.invalidPath path) "Empty file path provided" []
  let (place, size) ← fileOf path entry
  let m : Metadata := ⟨place, size, 0⟩
  describe m
  requireAdmissible p path m
  let source ← sourceOf path entry
  let lines := countLines source
  if Limits.documentLines < lines then
    refuse (.tooManyLines lines Limits.documentLines) "Document exceeds maximum line count"
      [("file", path), ("lines", toString lines), ("max_lines", toString Limits.documentLines)]
  let d : Document := ⟨source, { m with lineCount := lines }⟩
  Logged.emit (loadedEvent p path d elapsed)
  return d

end ManagementScript.Document
