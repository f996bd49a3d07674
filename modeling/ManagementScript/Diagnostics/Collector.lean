import ManagementScript.Diagnostics.LogEvent
import ManagementScript.Document.Path

/-!
Events by document, and the report made of them. Each document keeps its first events up to a limit and
one warning when there were more.
-/

namespace ManagementScript

/-- The events of one document. -/
structure DocumentLog where
  path : String
  events : Array LogEvent

namespace DocumentLog

/-- The warning in the place of the first event that is not kept. -/
def overflow : LogEvent :=
  .warning s!"Too many events for document (limit: {Limits.documentEvents})"

def record (log : DocumentLog) (event : LogEvent) : DocumentLog :=
  if log.events.size < Limits.documentEvents then { log with events := log.events.push event }
  else if log.events.size = Limits.documentEvents then { log with events := log.events.push overflow }
  else log

def hasErrors (log : DocumentLog) : Bool := log.events.any (·.isError)

def hasWarnings (log : DocumentLog) : Bool := log.events.any (·.isWarning)

end DocumentLog

/-- What the collected events say about all documents together. -/
structure Summary where
  documents : Nat
  successful : Nat
  failed : Nat
  withWarnings : Nat
  errors : Nat
  warnings : Nat
deriving DecidableEq, Repr

namespace Summary

def hasErrors (s : Summary) : Bool := s.errors != 0

def hasWarnings (s : Summary) : Bool := s.warnings != 0

end Summary

/-- The events of documents, in the order of their paths. -/
structure Collector where
  documents : List DocumentLog

namespace Collector

def empty : Collector := ⟨[]⟩

/-- Records an event in ascending logs. -/
def recordInto (path : String) (event : LogEvent) : List DocumentLog → List DocumentLog
  | [] => [⟨path, #[event]⟩]
  | log :: logs =>
    match Path.order path log.path with
    | .lt => ⟨path, #[event]⟩ :: log :: logs
    | .eq => log.record event :: logs
    | .gt => log :: recordInto path event logs

def record (c : Collector) (path : String) (event : LogEvent) : Collector :=
  ⟨recordInto path event c.documents⟩

def log? (c : Collector) (path : String) : Option DocumentLog :=
  c.documents.find? fun log => Path.order path log.path == .eq

def events (c : Collector) (path : String) : List LogEvent :=
  ((c.log? path).map (·.events.toList)).getD []

def hasErrors (c : Collector) (path : String) : Bool :=
  ((c.log? path).map (·.hasErrors)).getD false

def eventCount (c : Collector) : Nat := c.documents.foldl (fun n log => n + log.events.size) 0

/-- Every event with the path of its document. -/
def allEvents (c : Collector) : List (String × LogEvent) :=
  c.documents.flatMap fun log => log.events.toList.map (log.path, ·)

/-- The events that are at least as severe as `least`. -/
def eventsFrom (c : Collector) (least : Severity) : List (String × LogEvent) :=
  c.allEvents.filter fun (_, event) => event.code.severity.rank ≤ least.rank

/-- A document counts as failed with an error, and as one with warnings with only those. -/
def summary (c : Collector) : Summary :=
  let failed := c.documents.countP (·.hasErrors)
  let withWarnings := c.documents.countP fun log => !log.hasErrors && log.hasWarnings
  { documents := c.documents.length
    successful := c.documents.length - failed - withWarnings
    failed
    withWarnings
    errors := c.allEvents.countP (·.2.isError)
    warnings := c.allEvents.countP (·.2.isWarning) }

/-! ### The report -/

/-- The facts of an event that are not about its document. -/
def reportedFacts (event : LogEvent) : List (String × String) :=
  event.context.entries.filter fun (name, _) => name != "document" && name != "document_id"

/-- An error or a warning as it is reported. -/
def reportEvent (path : String) (event : LogEvent) : String :=
  let code := event.code
  let label := if event.isError then "error" else "warning"
  let place := match event.position with
    | some p => s!" --> {path}:{p}"
    | none => ""
  let facts := String.join ((reportedFacts event).map fun (name, value) => s!"  = {name}: {value}\n")
  let rank := if event.isError then
      s!"  = severity: {code.severity}, category: {code.category}\n"
    else ""
  let help := if event.isError && code.registered?.isSome then s!"  = help: {code.action}\n" else ""
  s!"{label}[{code}]: {event.message}{place}\n{rank}{facts}{help}"

/-- The errors and warnings of one document, if there are any. -/
def reportDocument (log : DocumentLog) : String :=
  let reported := log.events.toList.filter fun event => event.isError || event.isWarning
  if reported.isEmpty then ""
  else s!"Checking {log.path}...\n" ++ String.join (reported.map (reportEvent log.path)) ++ "\n"

/-- The errors and warnings of all documents and their numbers. -/
def report (c : Collector) : String :=
  let summary := c.summary
  let errors := if summary.errors = 0 then "" else s!"\nTotal errors: {summary.errors}\n"
  let warnings := if summary.warnings = 0 then "" else s!"Total warnings: {summary.warnings}\n"
  String.join (c.documents.map reportDocument) ++ errors ++ warnings

end Collector

end ManagementScript
