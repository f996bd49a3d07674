import ManagementScript.Diagnostics.LogEvent

/-! A log that keeps the most recent events, behind a filter by level. -/

namespace ManagementScript

/-- The most recent events, oldest first. -/
structure RecentLog where
  events : Array LogEvent

namespace RecentLog

def empty : RecentLog := ⟨#[]⟩

/-- How many of the oldest events have to make room for one more. -/
def excess (log : RecentLog) : Nat := log.events.size + 1 - Limits.recentEvents

/-- Keeps an event. Where there is no room left the oldest events make room for it. -/
def keep (log : RecentLog) (event : LogEvent) : RecentLog :=
  if log.excess = 0 then ⟨log.events.push event⟩
  else ⟨(log.events.extract log.excess log.events.size).push event⟩

def codes (log : RecentLog) : List Code := log.events.toList.map (·.code)

def hasCode (log : RecentLog) (code : Code) : Bool := log.events.any (·.code == code)

def errors (log : RecentLog) : List LogEvent := log.events.toList.filter (·.isError)

def size (log : RecentLog) : Nat := log.events.size

/-- Keeps an event that matters at least as much as `least`. -/
def keepFrom (log : RecentLog) (least : LogLevel) (event : LogEvent) : RecentLog :=
  if event.level.passes least then log.keep event else log

end RecentLog

end ManagementScript
