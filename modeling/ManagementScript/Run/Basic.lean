import ManagementScript.Diagnostics.Journal
import ManagementScript.Document.Load
import ManagementScript.Run.Result
import ManagementScript.Run.Sections

/-! Runs over a document, from its text or from the path of its file to the script. -/

namespace ManagementScript.Run

/-- What a run works with. -/
structure Request where
  options : RunOptions
  logging : LoggingPreferences
  timing : Timing

/-- The event that a command is part of the script. -/
def emitted (c : Command) : LogEvent :=
  (LogEvent.debug "Emitted operation").withFact "operation" (toString c)

/-- The script of a text, and the grammar that it is written in. -/
def compile (o : RunOptions) (source : String) : Logged RunError (Script × GrammarNamespace) := do
  match DocumentCompilation.document o (Compilation.start source ()) with
  | (.ok grammar, s) =>
    Logged.emitAll s.events
    if o.compilation.logCommands then Logged.emitAll (s.script.commands.map emitted)
    return (s.script, grammar)
  | (.error e, s) =>
    Logged.emitAll s.events
    throw e

/-- The result of a run over a text, which is known by the name `source`. -/
def complete (r : Request) (name source : String) (metadata : Option Metadata) :
    Logged RunError RunResult := do
  let (script, grammar) ← compile r.options source
  let result : RunResult :=
    ⟨script, grammar, r.options.base, metadata, source.utf8ByteSize, r.timing⟩
  Logged.emit (result.event r.logging name)
  return result

/-- A run over a text. -/
def ofSource (r : Request) (source : String) : Logged RunError RunResult :=
  complete r "<memory>" source none

/-- A run over the document at a path, which leads to `entry`. -/
def ofEntry (r : Request) (path : String) (entry : Entry) : Logged RunError RunResult := do
  Logged.emit ((LogEvent.info "Starting management document pipeline").withFact "file" path)
  let d ← ExceptT.adapt .loading (Document.load r.options.document path entry r.timing.elapsed)
  complete r path d.source (some d.metadata)

/-- Does work and enters its events in a journal. -/
def entered (p : LoggingPreferences) (work : Logged ε α) (journal : Journal) :
    Except ε α × Journal :=
  let (result, events) := work.outcome
  (result, journal.logAll p events)

/-- A run over the document at a path, whose events are entered under that path. -/
def recorded (r : Request) (path : String) (entry : Entry) (journal : Journal) :
    Except RunError RunResult × Journal :=
  let (result, events) := (ofEntry r path entry).outcome
  (result, journal.within ⟨path, 0⟩ (·.logAll r.logging events))

end ManagementScript.Run
