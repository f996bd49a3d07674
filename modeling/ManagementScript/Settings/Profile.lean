import ManagementScript.Diagnostics.Logged
import ManagementScript.Limits
import ManagementScript.Settings.Preferences

/-! The build profile, the check of what was chosen in it, and the summary of the logging settings. -/

namespace ManagementScript

/-- Where the limits of a build come from. -/
structure Profile where
  name : String
  directory : String
deriving DecidableEq, Repr

namespace Profile

/-- The profile of this build. -/
def current : Profile := ⟨"development", "config"⟩

def source (p : Profile) : String := s!"Generated from {p.directory}/{p.name}.toml"

end Profile

/-- The limits of logging. -/
structure LogLimits where
  recentEvents : Nat
  documentEvents : Nat
  collectedErrors : Nat
deriving DecidableEq, Repr

namespace LogLimits

/-- The limits of this build. -/
def current : LogLimits := ⟨Limits.recentEvents, Limits.documentEvents, Limits.collectedErrors⟩

/-- Limits that can not be worked with are refused. -/
def check (limits : LogLimits) : Except String Unit :=
  if 100000 < limits.recentEvents then .error s!"Log buffer size too large: {limits.recentEvents}"
  else if limits.recentEvents < 100 then .error s!"Log buffer size too small: {limits.recentEvents}"
  else if limits.recentEvents < limits.documentEvents then
    .error "Max log events per document exceeds total buffer size"
  else if limits.collectedErrors = 0 then .error "Error collection capacity must be positive"
  else .ok ()

theorem check_current : current.check = .ok () := by rfl

end LogLimits

/-- The codes that loading a document may report. -/
def loadingCodes : List Code := [
  .fileNotFound, .invalidExtension, .fileTooLarge, .emptyFile, .permissionDenied, .invalidEncoding,
  .storageFailure, .invalidPath]

/-- Confirms that everything is known about the codes that loading may report. -/
def confirmLoadingCodes : Logged String Unit := do
  match loadingCodes.find? (·.registered?.isNone) with
  | some code => throw s!"File processor error code {code} not found in metadata registry"
  | none =>
    Logged.emit ((LogEvent.debug "File processor compile-time configuration loaded").withFacts [
      ("max_document_size", toString Limits.documentSize),
      ("perf_buffer_size", toString Limits.performanceEvents)])

/-! ### Summaries -/

/-- The name of a level in a summary. -/
def LogLevel.name : LogLevel → String
  | error => "Error"
  | warning => "Warning"
  | info => "Info"
  | debug => "Debug"

/-- What is fixed in the build and what is chosen, one setting to a line. -/
def LoggingPreferences.summary (p : LoggingPreferences) : String :=
  "\n".intercalate [
    "Logging Configuration:",
    "=== Compile-time ===",
    s!"- Log buffer size: {Limits.recentEvents}",
    s!"- Max events per document: {Limits.documentEvents}",
    s!"- Max message length: {Limits.messageSize}",
    s!"- Security min level: {securityLevel.rank}",
    "=== Runtime ===",
    s!"- Min log level: {p.minLevel.name}",
    s!"- Structured logging: {p.structured}",
    s!"- Console logging: {p.console}",
    s!"- Performance events: {p.logPerformance}",
    s!"- Document context: {p.includeDocument}"]

namespace Preferences

/-- All preferences as an object. -/
def toJson (p : Preferences) : Json :=
  .object [
    ("document", .object [
      ("require_xml_extension", .boolean p.document.requireXmlExtension),
      ("enable_performance_logging", .boolean p.document.logPerformance)]),
    ("translation", .object [
      ("require_native_interface", .boolean p.compilation.requireNativeInterface),
      ("log_emitted_operations", .boolean p.compilation.logCommands),
      ("host_name", (p.compilation.hostName.map Json.string).getD .null)]),
    ("logging", .object [
      ("use_structured_logging", .boolean p.logging.structured),
      ("enable_console_logging", .boolean p.logging.console),
      ("min_log_level", .string p.logging.minLevel.name),
      ("log_performance_events", .boolean p.logging.logPerformance),
      ("include_document_context", .boolean p.logging.includeDocument)])]

end Preferences

end ManagementScript
