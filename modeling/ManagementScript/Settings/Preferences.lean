import ManagementScript.Diagnostics.LogEvent

/-!
Preferences of the user, taken from variables of the environment. A variable with a text that means
nothing is as good as none.
-/

namespace ManagementScript

/-- The variables of an environment with their texts. -/
abbrev Environment := List (String × String)

namespace Environment

/-- A truth value is written as `true` or `false`, just so. -/
def flag (env : Environment) (name : String) (default : Bool) : Bool :=
  match env.lookup name with
  | some "true" => true
  | some "false" => false
  | _ => default

end Environment

/-- How documents are loaded. -/
structure DocumentPreferences where
  requireXmlExtension : Bool
  logPerformance : Bool
deriving DecidableEq, Repr

namespace DocumentPreferences

def ofEnvironment (env : Environment) : DocumentPreferences where
  requireXmlExtension := env.flag "MGMT_REQUIRE_XML_EXTENSION" false
  logPerformance := env.flag "MGMT_ENABLE_PERFORMANCE_LOGGING" true

/-- Any extension will do, and performance is logged. -/
def plain : DocumentPreferences := ⟨false, true⟩

end DocumentPreferences

/-- What documents are compiled for. -/
structure CompilationPreferences where
  requireNativeInterface : Bool
  logCommands : Bool
  /-- The host that all addresses are below. -/
  hostName : Option String
deriving DecidableEq, Repr

namespace CompilationPreferences

def ofEnvironment (env : Environment) : CompilationPreferences where
  requireNativeInterface := env.flag "MGMT_REQUIRE_NATIVE_INTERFACE" false
  logCommands := env.flag "MGMT_LOG_EMITTED_OPERATIONS" false
  hostName := (env.lookup "MGMT_HOST_NAME").filter (!·.isEmpty)

end CompilationPreferences

/-- A level by its name, in any case, or by its number. -/
def LogLevel.ofText? (text : String) : Option LogLevel :=
  match text.map Char.toLower with
  | "error" | "0" => some .error
  | "warning" | "warn" | "1" => some .warning
  | "info" | "2" => some .info
  | "debug" | "3" => some .debug
  | _ => none

/-- What is logged and where. -/
structure LoggingPreferences where
  structured : Bool
  console : Bool
  minLevel : LogLevel
  logPerformance : Bool
  includeDocument : Bool
deriving DecidableEq, Repr

namespace LoggingPreferences

def ofEnvironment (env : Environment) : LoggingPreferences where
  structured := env.flag "MGMT_LOGGING_USE_STRUCTURED" false
  console := env.flag "MGMT_LOGGING_ENABLE_CONSOLE" false
  minLevel := ((env.lookup "MGMT_LOGGING_MIN_LEVEL").bind LogLevel.ofText?).getD .info
  logPerformance := env.flag "MGMT_LOGGING_LOG_PERFORMANCE" true
  includeDocument := env.flag "MGMT_LOGGING_INCLUDE_DOCUMENT_CONTEXT" true

/-- The level that can not be silenced. -/
def securityLevel : LogLevel := .warning

/-- The level from which on events are logged, never less than the security level. -/
def effectiveLevel (p : LoggingPreferences) : LogLevel :=
  if p.minLevel.rank < securityLevel.rank then securityLevel else p.minLevel

end LoggingPreferences

/-- All preferences. -/
structure Preferences where
  document : DocumentPreferences
  compilation : CompilationPreferences
  logging : LoggingPreferences
deriving DecidableEq, Repr

namespace Preferences

/-- The variables that preferences are taken from. -/
def variableNames : List String := [
  "MGMT_REQUIRE_XML_EXTENSION", "MGMT_ENABLE_PERFORMANCE_LOGGING", "MGMT_REQUIRE_NATIVE_INTERFACE",
  "MGMT_LOG_EMITTED_OPERATIONS", "MGMT_HOST_NAME", "MGMT_LOGGING_USE_STRUCTURED",
  "MGMT_LOGGING_ENABLE_CONSOLE", "MGMT_LOGGING_MIN_LEVEL", "MGMT_LOGGING_LOG_PERFORMANCE",
  "MGMT_LOGGING_INCLUDE_DOCUMENT_CONTEXT"]

def ofEnvironment (env : Environment) : Preferences where
  document := .ofEnvironment env
  compilation := .ofEnvironment env
  logging := .ofEnvironment env

end Preferences

end ManagementScript
