import ManagementScript.Diagnostics.Code
import ManagementScript.Text.Quoted

/-! Why a document can not be loaded. -/

namespace ManagementScript

inductive LoadError where
  | fileNotFound (path : String)
  | invalidExtension (extension : Option String)
  | fileTooLarge (size max : Nat)
  | emptyFile
  | permissionDenied (path : String)
  | invalidEncoding (path : String)
  | storageFailure (problem : String)
  | invalidPath (path : String)
  | tooManyLines (lines max : Nat)
deriving DecidableEq, Repr

namespace LoadError

def code : LoadError → Code
  | fileNotFound _ => .fileNotFound
  | invalidExtension _ => .invalidExtension
  | fileTooLarge .. | tooManyLines .. => .fileTooLarge
  | emptyFile => .emptyFile
  | permissionDenied _ => .permissionDenied
  | invalidEncoding _ => .invalidEncoding
  | storageFailure _ => .storageFailure
  | invalidPath _ => .invalidPath

/-- An extension that was found, or that there is none. -/
def found : Option String → String
  | some extension => s!"Some({Text.quoted extension})"
  | none => "None"

def message : LoadError → String
  | fileNotFound path => s!"File not found: {path}"
  | invalidExtension extension => s!"Invalid file extension: expected .xml, found {found extension}"
  | fileTooLarge size max => s!"File too large: {size} bytes (max: {max})"
  | emptyFile => "File is empty"
  | permissionDenied path => s!"Permission denied: {path}"
  | invalidEncoding path => s!"Invalid UTF-8 encoding in file: {path}"
  | storageFailure problem => s!"I/O error reading file: {problem}"
  | invalidPath path => s!"Invalid file path: {path}"
  | tooManyLines lines max => s!"File exceeds maximum line count: {lines} (max: {max})"

end LoadError

end ManagementScript
