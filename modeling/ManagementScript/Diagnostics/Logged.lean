import ManagementScript.Diagnostics.LogEvent

/-! Work that emits events of the log on its way to a result or an error. -/

namespace ManagementScript

/-- A computation that ends with a result or an error, in either case with the events emitted so far. -/
abbrev Logged (ε α : Type) := ExceptT ε (StateM (Array LogEvent)) α

namespace Logged

variable {ε α : Type}

def emit (event : LogEvent) : Logged ε Unit := modify (·.push event)

def emitAll (events : Array LogEvent) : Logged ε Unit := modify (· ++ events)

/-- Emits an error event and fails. -/
def refuse (error : ε) (event : LogEvent) : Logged ε α := do
  emit event
  throw error

/-- The outcome together with the events emitted on the way. -/
def outcome (work : Logged ε α) : Except ε α × List LogEvent :=
  match work.run #[] with
  | (result, events) => (result, events.toList)

end Logged

end ManagementScript
