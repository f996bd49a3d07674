import ManagementScript.Schema.Catalogue
import ManagementScript.Compilation.Basic

/-! Named properties of a resource. -/

namespace ManagementScript.Compilation

variable {δ : Type}

/-- A property of the resource at `owner`. Its name must differ from the names before. -/
def property (owner : Address) (valueRequired : Bool) (names : NameSet) : Compilation δ NameSet := do
  let position ← location
  let (name, ps) ← readNamed (.property valueRequired)
  let names ← check (names.reserve .property name position)
  requireNoContent
  push ⟨owner.append "property" name, ps⟩
  return names

/-- The properties of the resource at `owner`, each of which becomes a command. -/
def properties (grammar : GrammarNamespace) (owner : Address) (valueRequired : Bool) :
    Compilation δ Unit := do
  requireNoAttributes
  discard <| forChildren grammar NameSet.empty fun names element =>
    match element with
    | .property => property owner valueRequired names
    | _ => unexpectedElement

/-- The children of a resource that may only have properties. -/
def onlyProperties (grammar : GrammarNamespace) (owner : Address) (valueRequired : Bool) :
    Compilation δ Unit := do
  discard <| forChildren grammar ElementSet.empty fun seen element => do
    match element with
    | .properties =>
      let seen ← once seen element
      properties grammar owner valueRequired
      return seen
    | _ => unexpectedElement

end ManagementScript.Compilation
