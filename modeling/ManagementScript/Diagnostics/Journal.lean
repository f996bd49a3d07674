import ManagementScript.Diagnostics.Collector
import ManagementScript.Settings.Preferences

/-!
The journal of a program: where events go. Each event reaches the log, with the document that is being
worked on among its facts; errors and warnings are collected under that document as well.
-/

namespace ManagementScript

/-- The document that is being worked on. -/
structure DocumentContext where
  path : String
  id : Nat
deriving DecidableEq, Repr

/-- Where events have gone. -/
structure Journal where
  collector : Collector
  document : Option DocumentContext
  /-- The events that reached the log, in order. -/
  logged : Array LogEvent

namespace Journal

def empty : Journal := ⟨.empty, none, #[]⟩

/-- Begins the journal of a program, which has only one. -/
def begin? : Option Journal → Except String Journal
  | none => .ok empty
  | some _ => .error "Global logger already initialized"

/-- An event with the current document among its facts. -/
def withDocumentFacts (p : LoggingPreferences) (document : Option DocumentContext)
    (event : LogEvent) : LogEvent :=
  match document with
  | some d =>
    if p.includeDocument then (event.withFact "document" d.path).withFact "document_id" (toString d.id)
    else event
  | none => event

/-- Sends an event to the log, and an error or a warning to the collector. -/
def dispatch (p : LoggingPreferences) (journal : Journal) (event : LogEvent) : Journal :=
  let event := withDocumentFacts p journal.document event
  let collector := match journal.document with
    | some d => if event.isError || event.isWarning then journal.collector.record d.path event
      else journal.collector
    | none => journal.collector
  { journal with collector, logged := journal.logged.push event }

/-- Dispatches an event, unless it is about details and these are not wanted. -/
def log (p : LoggingPreferences) (journal : Journal) (event : LogEvent) : Journal :=
  if event.level == .debug && p.effectiveLevel != .debug then journal else journal.dispatch p event

def logAll (p : LoggingPreferences) (journal : Journal) (events : List LogEvent) : Journal :=
  events.foldl (log p) journal

def enter (journal : Journal) (document : DocumentContext) : Journal :=
  { journal with document := some document }

def leave (journal : Journal) : Journal := { journal with document := none }

/-- Works on a document. Afterwards there is no current document. -/
def within (journal : Journal) (document : DocumentContext) (work : Journal → Journal) : Journal :=
  (work (journal.enter document)).leave

end Journal

end ManagementScript
