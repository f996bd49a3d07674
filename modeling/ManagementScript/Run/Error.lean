import ManagementScript.Document.LoadError
import ManagementScript.Compilation.Error

/-! Why a run over a document gives no script. -/

namespace ManagementScript

inductive RunError where
  | loading (error : LoadError)
  | reading (error : ReadError)
  | compilation (error : CompilationError)
  /-- The root element is in a namespace that is not one of the grammar, or in none. -/
  | unsupportedNamespace (found : Option String)
  /-- There is no management element at the root or below it. -/
  | missingManagement (root : String)
deriving DecidableEq, Repr

namespace RunError

def code : RunError → Code
  | loading e => e.code
  | reading e => e.code
  | compilation e => e.code
  | unsupportedNamespace _ => .unsupportedNamespace
  | missingManagement _ => .missingRoot

def message : RunError → String
  | loading e => s!"File processing failed: {e.message}"
  | reading e => s!"Document is malformed: {e.message}"
  | compilation e => s!"Translation failed: {e.message}"
  | unsupportedNamespace (some uri) => s!"Unsupported management namespace: {uri}"
  | unsupportedNamespace none => "Unsupported management namespace: none"
  | missingManagement root => s!"No management element found under root '{root}'"

end RunError

end ManagementScript
