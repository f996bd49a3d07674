import ManagementScript.Command.Script
import ManagementScript.Cursor.Error

/-! Why the compilation of a document into a script fails. -/

namespace ManagementScript

/-- The families of compilation errors. -/
inductive ErrorKind where
  | unexpectedConstruct
  | missingRequired
  | duplicateOrExclusive
  | invalidValue
  | unsupported
  | malformed
  | limitExceeded
deriving DecidableEq, Repr

/-- An error of compilation. Where names are missing or in conflict, all of them are given. -/
inductive CompilationError where
  | unexpectedElement (element : String) (position : Position)
  | unexpectedAttribute (attr element : String) (position : Position)
  | unexpectedNamespace (element found expected : String) (position : Position)
  | strayContent (content : String) (position : Position)
  | missingAttributes (element : String) (attrs : List String) (position : Position)
  | missingElement (elements : List String) (position : Position)
  | missingOneOf (alternatives : List String) (position : Position)
  | duplicateElement (element : String) (position : Position)
  | duplicateName (element name : String) (position : Position)
  | exclusiveViolation (element : String) (alternatives : List String) (position : Position)
  | invalidValue (attr value reason : String) (allowed : List String) (position : Position)
  | unsupported (operation : String)
  | limitExceeded (subject : String) (max : Nat)
  | reader (error : ReadError)
deriving DecidableEq, Repr

namespace CompilationError

/-- Stray content is an unexpected construct of the grammar; other errors of reading stay such. -/
def ofRead : ReadError → CompilationError
  | .strayContent content p => .strayContent content p
  | e => .reader e

/-- What is said to be exceeded when a script is full. -/
def commandList : String := "Command list"

def ofCapacity (e : CapacityError) : CompilationError := .limitExceeded commandList e.max

def kind : CompilationError → ErrorKind
  | unexpectedElement .. | unexpectedAttribute .. | unexpectedNamespace .. | strayContent .. =>
    .unexpectedConstruct
  | missingAttributes .. | missingElement .. | missingOneOf .. => .missingRequired
  | duplicateElement .. | duplicateName .. | exclusiveViolation .. => .duplicateOrExclusive
  | invalidValue .. => .invalidValue
  | unsupported .. => .unsupported
  | limitExceeded .. | reader (.nestingTooDeep ..) | reader (.tooManyAttributes ..) => .limitExceeded
  | reader _ => .malformed

def code : CompilationError → Code
  | unexpectedElement .. => .unexpectedElement
  | unexpectedAttribute .. => .unexpectedAttribute
  | unexpectedNamespace .. => .unexpectedNamespace
  | strayContent .. => .strayContent
  | missingAttributes .. => .missingAttributes
  | missingElement .. => .missingElement
  | missingOneOf .. => .missingOneOf
  | duplicateElement .. => .duplicateElement
  | duplicateName .. => .duplicateName
  | exclusiveViolation .. => .exclusiveViolation
  | invalidValue .. => .invalidValue
  | unsupported .. => .unsupported
  | limitExceeded subject _ => if subject == commandList then .commandLimit else .listLimit
  | reader e => e.code

/-- The place in the document, for an error that has one. -/
def position? : CompilationError → Option Position
  | unexpectedElement _ p | unexpectedAttribute _ _ p | unexpectedNamespace _ _ _ p
  | strayContent _ p | missingAttributes _ _ p | missingElement _ p | missingOneOf _ p
  | duplicateElement _ p | duplicateName _ _ p | exclusiveViolation _ _ p
  | invalidValue _ _ _ _ p => some p
  | reader e => some e.position
  | unsupported _ | limitExceeded .. => none

def joined (names : List String) : String := ", ".intercalate names

def message : CompilationError → String
  | unexpectedElement element p => s!"Unexpected element '{element}' at {p}"
  | unexpectedAttribute attr element p => s!"Unexpected attribute '{attr}' on '{element}' at {p}"
  | unexpectedNamespace element found expected p =>
    s!"Element '{element}' is in namespace '{found}', expected '{expected}' at {p}"
  | strayContent content p => s!"Unexpected content '{content}' at {p}"
  | missingAttributes element attrs p =>
    s!"Missing required attribute(s) {joined attrs} on '{element}' at {p}"
  | missingElement elements p => s!"Missing required element(s) {joined elements} at {p}"
  | missingOneOf alternatives p => s!"Missing one of {joined alternatives} at {p}"
  | duplicateElement element p => s!"Duplicate element '{element}' at {p}"
  | duplicateName element name p => s!"Duplicate {element} name '{name}' at {p}"
  | exclusiveViolation element alternatives p =>
    s!"Element '{element}' conflicts with an earlier element; only one of {joined alternatives} is allowed at {p}"
  | invalidValue attr value reason _ p =>
    s!"Invalid value '{value}' for attribute '{attr}': {reason} at {p}"
  | unsupported operation => s!"Unsupported operation: {operation}"
  | limitExceeded subject max => s!"{subject} limit of {max} exceeded"
  | reader e => e.message

end CompilationError

end ManagementScript
