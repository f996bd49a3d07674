import ManagementScript.Diagnostics.Code
import ManagementScript.Limits
import ManagementScript.Source.Position
import ManagementScript.Text.Blank
import ManagementScript.Text.Dictionary
import ManagementScript.Text.Json

/-! Events of the log, and the three forms they are written in: one line, several lines with all that
is known about the code, and JSON. -/

namespace ManagementScript

/-- How much an event matters, the most important level first. -/
inductive LogLevel where
  | error
  | warning
  | info
  | debug
deriving DecidableEq, Repr

namespace LogLevel

def rank : LogLevel → Nat
  | error => 0
  | warning => 1
  | info => 2
  | debug => 3

/-- The label of the level in a log. -/
def label : LogLevel → String
  | error => "ERROR"
  | warning => "WARN"
  | info => "INFO"
  | debug => "DEBUG"

/-- Whether an event of level `a` passes where `least` is the least important level wanted. -/
def passes (a least : LogLevel) : Bool := a.rank ≤ least.rank

end LogLevel

/-- The last place between two characters that is no further on than an offset. The search goes back byte by
byte; a text begins with such a place. -/
def lastPlace (text : String) : (offset : Nat) → text.Pos
  | 0 => text.startPos
  | offset + 1 =>
    if h : (String.Pos.Raw.mk (offset + 1)).IsValid text then ⟨_, h⟩ else lastPlace text offset

/-- A message as it is kept: one that is too long is cut behind a whole character and marked. -/
def boundedMessage (message : String) : String :=
  if message.utf8ByteSize ≤ Limits.messageSize then message
  else (message.sliceTo (lastPlace message Limits.messageSize)).copy ++ "..."

/-- One entry of the log. -/
structure LogEvent where
  /-- When it happened, in seconds since the beginning of 1970. -/
  time : Nat
  level : LogLevel
  code : Code
  message : String
  position : Option Position
  /-- Further facts by their names. -/
  context : Dictionary String
deriving Repr

namespace LogEvent

def ofLevel (level : LogLevel) (code : Code) (message : String) : LogEvent :=
  ⟨0, level, code, boundedMessage message, none, .empty⟩

def error (code : Code) (message : String) : LogEvent := ofLevel .error code message

def warning (message : String) : LogEvent := ofLevel .warning ⟨"W000"⟩ message

def info (message : String) : LogEvent := ofLevel .info ⟨"I000"⟩ message

/-- An event of the level `info` with the code of a success. -/
def success (code : Code) (message : String) : LogEvent := ofLevel .info code message

def debug (message : String) : LogEvent := ofLevel .debug ⟨"D000"⟩ message

/-- Adds a fact, in the place of an earlier one of that name. -/
def withFact (event : LogEvent) (name value : String) : LogEvent :=
  { event with context := event.context.set name value }

def withFacts (event : LogEvent) (facts : List (String × String)) : LogEvent :=
  facts.foldl (fun event (name, value) => event.withFact name value) event

def withPosition (event : LogEvent) (position : Position) : LogEvent :=
  { event with position := some position }

def isError (event : LogEvent) : Bool := event.level == .error

def isWarning (event : LogEvent) : Bool := event.level == .warning

/-- The event in one line. -/
def format (event : LogEvent) : String :=
  let place := match event.position with
    | some p => s!" at {p}"
    | none => ""
  s!"[{event.level.label}] {event.code} - {event.message}{place}"

/-- The event with what is known about its code and with its context. -/
def formatDetailed (event : LogEvent) : String :=
  let code := event.code
  let known := match code.registered? with
    | some entry => s!"\n  Description: {entry.description}\n  Recommended action: {entry.action}"
    | none => ""
  let facts := event.context.entries.map fun (name, value) => s!"\n    {name}: {value}"
  let context := if event.context.isEmpty then "" else "\n  Context:" ++ String.join facts
  s!"{event.format}\n  Category: {code.category}\n  Severity: {code.severity}{known}{context}"

/-- The event as an object with its fields in the order of their names. -/
def toJson (event : LogEvent) : Json :=
  let code := event.code
  let context := if event.context.isEmpty then []
    else [("context", .object (event.context.entries.map fun (name, value) => (name, .string value)))]
  let metadata := if !event.isError then []
    else [("error_metadata", .object [
      ("description", .string code.description),
      ("recommended_action", .string code.action),
      ("recoverable", .boolean code.recoverable),
      ("requires_halt", .boolean code.requiresHalt)])]
  let place := match event.position with
    | some p => [("position", .object [("column", .number p.column), ("line", .number p.line)])]
    | none => []
  .object ([("category", .string code.category), ("code", .string code.text)] ++ context ++ metadata ++
    [("level", .string event.level.label), ("message", .string event.message)] ++ place ++
    [("severity", .string (toString code.severity)), ("timestamp", .number event.time)])

end LogEvent

end ManagementScript
