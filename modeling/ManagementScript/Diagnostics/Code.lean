/-!
Codes of errors and successes, and what is known about each: its category, how severe it is, whether
work can go on, and what a reader can do about it.
-/

namespace ManagementScript

/-- The identifier of a kind of event. -/
structure Code where
  text : String
deriving DecidableEq, Repr, Inhabited

instance : ToString Code := ⟨Code.text⟩

/-- How severe an event is, the most severe first. -/
inductive Severity where
  | critical
  | high
  | medium
  | low
deriving DecidableEq, Repr

namespace Severity

def rank : Severity → Nat
  | critical => 0
  | high => 1
  | medium => 2
  | low => 3

protected def toString : Severity → String
  | critical => "Critical"
  | high => "High"
  | medium => "Medium"
  | low => "Low"

instance : ToString Severity := ⟨Severity.toString⟩

end Severity

/-- What is known about a code. -/
structure CodeEntry where
  code : Code
  category : String
  severity : Severity
  recoverable : Bool
  requiresHalt : Bool
  description : String
  action : String
deriving DecidableEq, Repr

namespace CodeEntry

/-- The entry of a failure, after which work cannot go on. -/
def failure (code : Code) (category : String) (severity : Severity) (description action : String) :
    CodeEntry :=
  ⟨code, category, severity, false, true, description, action⟩

/-- The entry of a success. -/
def success (code : Code) (category description action : String) : CodeEntry :=
  ⟨code, category, .low, true, false, description, action⟩

end CodeEntry

namespace Code

def internalError : Code := ⟨"ERR001"⟩
def initializationFailure : Code := ⟨"ERR002"⟩

def fileNotFound : Code := ⟨"E005"⟩
def invalidExtension : Code := ⟨"E006"⟩
def fileTooLarge : Code := ⟨"E007"⟩
def emptyFile : Code := ⟨"E008"⟩
def permissionDenied : Code := ⟨"E009"⟩
def invalidEncoding : Code := ⟨"E010"⟩
def storageFailure : Code := ⟨"E011"⟩
def invalidPath : Code := ⟨"E012"⟩

def malformedDocument : Code := ⟨"E020"⟩
def strayContent : Code := ⟨"E021"⟩
def nestingTooDeep : Code := ⟨"E022"⟩
def tooManyAttributes : Code := ⟨"E023"⟩
def unexpectedEnd : Code := ⟨"E024"⟩

def unexpectedElement : Code := ⟨"E040"⟩
def unexpectedAttribute : Code := ⟨"E041"⟩
def unexpectedNamespace : Code := ⟨"E042"⟩
def unsupportedNamespace : Code := ⟨"E043"⟩
def missingRoot : Code := ⟨"E044"⟩

def missingAttributes : Code := ⟨"E060"⟩
def missingElement : Code := ⟨"E061"⟩
def missingOneOf : Code := ⟨"E062"⟩

def duplicateElement : Code := ⟨"E080"⟩
def exclusiveViolation : Code := ⟨"E081"⟩
def duplicateName : Code := ⟨"E082"⟩

def invalidValue : Code := ⟨"E100"⟩

def unsupported : Code := ⟨"E120"⟩

def commandLimit : Code := ⟨"E140"⟩
def listLimit : Code := ⟨"E141"⟩

def completed : Code := ⟨"I001"⟩
def initialized : Code := ⟨"I004"⟩
def documentLoaded : Code := ⟨"I006"⟩
def documentOpened : Code := ⟨"I020"⟩
def managementCompiled : Code := ⟨"I040"⟩
def realmCompiled : Code := ⟨"I041"⟩
def connectionCompiled : Code := ⟨"I042"⟩
def delegateHandled : Code := ⟨"I043"⟩
def pipelineComplete : Code := ⟨"I060"⟩

/-- Every registered code. -/
def registry : List CodeEntry := [
  .failure internalError "System" .critical "Critical internal system error"
    "Contact system administrator or file bug report",
  .failure initializationFailure "System" .critical "System initialization failed"
    "Check logging configuration and environment",
  .failure fileNotFound "FileProcessing" .medium "Configuration document not found"
    "Check the document path",
  .failure invalidExtension "FileProcessing" .low "Document does not have the .xml extension"
    "Rename the document or disable MGMT_REQUIRE_XML_EXTENSION",
  .failure fileTooLarge "FileProcessing" .high "Document exceeds compile-time size or line limits"
    "Split the document or rebuild with a larger profile limit",
  .failure emptyFile "FileProcessing" .medium "Document is empty"
    "Provide a document with a management element",
  .failure permissionDenied "FileProcessing" .high "Permission denied reading document"
    "Check file permissions",
  .failure invalidEncoding "FileProcessing" .medium "Document is not valid UTF-8"
    "Re-encode the document as UTF-8",
  { CodeEntry.failure storageFailure "FileProcessing" .high "I/O error reading document"
      "Retry or check the underlying storage" with recoverable := true },
  .failure invalidPath "FileProcessing" .medium "Invalid document path"
    "Provide a path to a regular file",
  .failure malformedDocument "Reader" .high "Document is not well-formed XML"
    "Fix the XML syntax at the reported position",
  .failure strayContent "Reader" .medium "Text content where only elements are allowed"
    "Remove the stray text",
  .failure nestingTooDeep "Reader" .high "Element nesting exceeds compile-time depth limit"
    "Flatten the document or rebuild with a larger profile limit",
  .failure tooManyAttributes "Reader" .high "Element carries more attributes than allowed"
    "Remove unneeded attributes",
  .failure unexpectedEnd "Reader" .high "Document ended inside an open element"
    "Close every open element",
  .failure unexpectedElement "Grammar" .medium "Element is not legal at this position"
    "Remove the element or move it to a valid parent",
  .failure unexpectedAttribute "Grammar" .medium "Attribute is not legal on this element"
    "Remove the attribute or check its spelling",
  .failure unexpectedNamespace "Grammar" .medium
    "Element is in a different namespace than the document"
    "Use the document's management namespace",
  .failure unsupportedNamespace "Grammar" .high "Management namespace version is not supported"
    "Use a 4.x management namespace",
  .failure missingRoot "Grammar" .high "Document has no management root element"
    "Wrap the configuration in a management element",
  .failure missingAttributes "Required" .medium "Required attributes are missing"
    "Add every listed attribute",
  .failure missingElement "Required" .medium "Required child element is missing"
    "Add the listed element",
  .failure missingOneOf "Required" .medium "None of the required alternatives is present"
    "Add exactly one of the listed elements",
  .failure duplicateElement "Cardinality" .medium "Element may appear at most once"
    "Remove the repeated element",
  .failure exclusiveViolation "Cardinality" .medium "Mutually exclusive alternatives used together"
    "Keep only one of the listed alternatives",
  .failure duplicateName "Cardinality" .medium "Name already used by a sibling resource"
    "Rename one of the resources",
  .failure invalidValue "Value" .medium "Attribute value is not valid"
    "Use one of the accepted values or a value of the right type",
  .failure unsupported "Unsupported" .high "Operation is not supported by this grammar version"
    "Use a writer for a newer management schema",
  .failure commandLimit "Limits" .high "Document produces more operations than allowed"
    "Split the document or rebuild with a larger profile limit",
  .failure listLimit "Limits" .medium "List attribute holds more items than allowed"
    "Shorten the list",
  .success completed "Success" "Operation completed successfully" "No action required",
  .success initialized "Success" "System initialization completed" "No action required",
  .success documentLoaded "FileProcessing" "Document loaded successfully"
    "Document ready for translation",
  .success documentOpened "Reader" "Document reader positioned on the management element"
    "No action required",
  .success managementCompiled "Translation" "Management element translated"
    "Operations ready for the executor",
  .success realmCompiled "Translation" "Security realm translated" "No action required",
  .success connectionCompiled "Translation" "Outbound connection translated"
    "No action required",
  .success delegateHandled "Translation" "Element handled by the management delegate"
    "No action required",
  .success pipelineComplete "Pipeline" "Translation pipeline completed" "No action required"]

/-- The entry of a registered code. -/
def registered? (code : Code) : Option CodeEntry :=
  registry.find? (·.code == code)

/-- An unregistered code is of medium severity. -/
def severity (code : Code) : Severity :=
  (code.registered?.map (·.severity)).getD .medium

def recoverable (code : Code) : Bool :=
  (code.registered?.map (·.recoverable)).getD true

def requiresHalt (code : Code) : Bool :=
  (code.registered?.map (·.requiresHalt)).getD false

def description (code : Code) : String :=
  (code.registered?.map (·.description)).getD "Unknown error"

def action (code : Code) : String :=
  (code.registered?.map (·.action)).getD "No specific action available"

def category (code : Code) : String :=
  (code.registered?.map (·.category)).getD "Unknown"

end Code

end ManagementScript
