import ManagementScript.Compilation.Connections
import ManagementScript.Compilation.Delegate
import ManagementScript.Compilation.Realm

/-!
The management element of a document. Its commands are added to a script only when the whole element
is valid.
-/

namespace ManagementScript.Compilation

variable {δ : Type}

/-- Offers a category to the delegate, and compiles it by `builtIn` where the delegate declines. -/
def offer (delegate : Delegate δ) (category : Category) (management : Address)
    (builtIn : Compilation δ Unit) : Compilation δ Unit := do
  if ← delegate.offer category management then
    succeed .delegateHandled "Delegate handled management category"
      [("element", category.element.localName)]
  else builtIn

/-- Reads one child of a management element. -/
def managementChild (grammar : GrammarNamespace) (delegate : Delegate δ) (management : Address)
    (seen : ElementSet) (element : ElementName) : Compilation δ ElementSet := do
  match element with
  | .securityRealms =>
    let seen ← once seen element
    offer delegate .securityRealms management (securityRealms grammar management)
    return seen
  | .outboundConnections =>
    let seen ← once seen element
    offer delegate .outboundConnections management (outboundConnections grammar management)
    return seen
  | .managementInterfaces =>
    let seen ← once seen element
    offer delegate .managementInterfaces management unexpectedElement
    return seen
  | .auditLog =>
    offer delegate .auditLog management unexpectedElement
    return seen
  | .accessControl =>
    offer delegate .accessControl management unexpectedElement
    return seen
  | .configurationChanges =>
    let seen ← once seen element
    leaf .configurationChanges (management.append "service" "configuration-changes")
    return seen
  | _ => unexpectedElement

/-- Compiles the management element that the cursor is on, below the resource at `base`. With
`nativeInterface` the element has to have management interfaces. The script is left as it is on
an error. -/
def management (grammar : GrammarNamespace) (delegate : Delegate δ) (base : Address)
    (nativeInterface : Bool) : Compilation δ Unit := do
  requireNoAttributes
  emit ((LogEvent.debug "Translating management element").withFact "namespace" grammar.uri)
  let address := base.append "core-service" "management"
  let (seen, commands) ← isolated
    (forChildren grammar ElementSet.empty (managementChild grammar delegate address))
  if nativeInterface && !seen.contains .managementInterfaces then
    throw (.missingElement [ElementName.managementInterfaces.localName] (← location))
  extend commands
  succeed .managementCompiled "Management element translated"
    [("namespace", grammar.uri), ("operations", toString commands.size)]

/-- Writing a management model back to a document is not supported. -/
def writeManagement : Except CompilationError Unit := .error (.unsupported "write_management")

end ManagementScript.Compilation
