import ManagementScript.Command.Script
import ManagementScript.Document.Metadata
import ManagementScript.Grammar.Namespace
import ManagementScript.Run.Options
import ManagementScript.Text.Decimal
import ManagementScript.Time.Instant

/-! What a run over a document gives, and the texts it is written as. -/

namespace ManagementScript

/-- When a run was completed, and how long it took. -/
structure Timing where
  completedAt : Instant
  /-- The duration in nanoseconds. -/
  elapsed : Nat
deriving DecidableEq, Repr

/-- The script of a document, and what is known about the run. -/
structure RunResult where
  script : Script
  grammar : GrammarNamespace
  base : Address
  /-- What is known about the file, if the document came from one. -/
  metadata : Option Metadata
  /-- The size of the document in bytes. -/
  sourceSize : Nat
  timing : Timing

namespace RunResult

/-- Counts a command under its kind. -/
def count (counts : Dictionary Nat) (c : Command) : Dictionary Nat :=
  counts.set c.kind ((counts.get? c.kind).getD 0 + 1)

/-- The number of commands of each kind. -/
def statistics (r : RunResult) : Dictionary Nat := r.script.commands.foldl count .empty

/-- The script as an object that begins with what is known about the run. -/
def toJson (r : RunResult) : Json :=
  .object [
    ("namespace", .string r.grammar.uri),
    ("completed_at", .string (toString r.timing.completedAt)),
    ("operation_count", .number r.script.size),
    ("statistics", .object (r.statistics.entries.map fun (kind, n) => (kind, .number n))),
    ("operations", r.script.toJson)]

/-- The commands, one to a line. -/
def toLines (r : RunResult) : String := "\n".intercalate (r.script.toList.map toString)

/-- The bytes that were processed in a second, or zero for a run that took no time. -/
def bytesPerSecond (r : RunResult) : Nat :=
  if r.timing.elapsed = 0 then 0 else Text.nearest (r.sourceSize * 1000000000) r.timing.elapsed

/-- The facts about a run that are logged. -/
def facts (r : RunResult) (source : String) : List (String × String) :=
  [("source", source), ("namespace", r.grammar.uri), ("operations", toString r.script.size)]

/-- How long a run took and how fast it was. -/
def performance (r : RunResult) : List (String × String) :=
  [("duration_ms", Text.decimal 2 r.timing.elapsed 1000000),
    ("processing_rate_bytes_per_sec", toString r.bytesPerSecond)]

/-- The event that a run over `source` has come to a result. -/
def event (p : LoggingPreferences) (source : String) (r : RunResult) : LogEvent :=
  (LogEvent.success .pipelineComplete "Management document translated").withFacts
    (r.facts source ++ if p.logPerformance then r.performance else [])

end RunResult

end ManagementScript
