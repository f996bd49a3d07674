import ManagementScript.Grammar.AttributeName
import ManagementScript.Compilation.Error

/-! The attributes that a start tag must carry and that are not seen yet. -/

namespace ManagementScript

/-- The required attributes that are still missing, in the order they are declared in. -/
structure RequiredAttributes where
  missing : List AttributeName
deriving DecidableEq, Repr

namespace RequiredAttributes

def see (r : RequiredAttributes) (attr : AttributeName) : RequiredAttributes :=
  ⟨r.missing.filter (· != attr)⟩

def isSatisfied (r : RequiredAttributes) : Bool := r.missing.isEmpty

/-- Fails with every attribute that was not seen. -/
def finish (r : RequiredAttributes) (element : String) (position : Position) :
    Except CompilationError Unit :=
  if r.isSatisfied then .ok ()
  else .error (.missingAttributes element (r.missing.map (·.localName)) position)

end RequiredAttributes

end ManagementScript
