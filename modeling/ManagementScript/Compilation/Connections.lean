import ManagementScript.Compilation.Properties

/-! Outbound connections. -/

namespace ManagementScript.Compilation

variable {δ : Type}

/-- A connection to a directory: the command of the connection, then those of its properties. -/
def ldapConnection (grammar : GrammarNamespace) (management : Address) (names : NameSet) :
    Compilation δ NameSet := do
  let position ← location
  let (name, ps) ← readNamed .ldapConnection
  let names ← check (names.reserve .ldap name position)
  let address := management.append "ldap-connection" name
  push ⟨address, ps⟩
  onlyProperties grammar address true
  succeed .connectionCompiled "Outbound connection translated" [("connection", name)]
  return names

def outboundConnections (grammar : GrammarNamespace) (management : Address) :
    Compilation δ Unit := do
  requireNoAttributes
  discard <| forChildren grammar NameSet.empty fun names element =>
    match element with
    | .ldap => ldapConnection grammar management names
    | _ => unexpectedElement

end ManagementScript.Compilation
