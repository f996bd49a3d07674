import ManagementScript.Compilation.Authorization

/-! Security realms. -/

namespace ManagementScript.Compilation

variable {δ : Type}

def plugIn (realm : Address) (modules : NameSet) : Compilation δ NameSet := do
  let position ← location
  let (module, _) ← readNamed .plugInModule
  let modules ← check (modules.reserve .plugIn module position)
  requireNoContent
  push (.add (realm.append "plug-in" module))
  return modules

def plugIns (grammar : GrammarNamespace) (realm : Address) : Compilation δ Unit := do
  requireNoAttributes
  discard <| forChildren grammar NameSet.empty fun modules element =>
    match element with
    | .plugIn => plugIn realm modules
    | _ => unexpectedElement

/-- The children of a realm. Tells whether groups are mapped to roles. -/
def realmContent (grammar : GrammarNamespace) (realm : Address) : Compilation δ (Option Value) := do
  let (_, mapping) ← forChildren grammar (ElementSet.empty, none) fun (seen, mapping) element => do
    match element with
    | .plugIns =>
      let seen ← once seen element
      plugIns grammar realm
      return (seen, mapping)
    | .serverIdentities =>
      let seen ← once seen element
      serverIdentities grammar realm
      return (seen, mapping)
    | .authentication =>
      let seen ← once seen element
      authentication grammar realm
      return (seen, mapping)
    | .authorization =>
      let seen ← once seen element
      return (seen, ← authorization grammar realm)
    | _ => unexpectedElement
  return mapping

/-- A realm. Its command carries a parameter that comes from one of its children, so the commands of
the children are held back until the realm is complete. -/
def securityRealm (grammar : GrammarNamespace) (management : Address) (names : NameSet) :
    Compilation δ NameSet := do
  let position ← location
  let (name, _) ← readNamed .securityRealm
  let names ← check (names.reserve .securityRealm name position)
  let address := management.append "security-realm" name
  let (mapping, content) ← isolated (realmContent grammar address)
  let ps := match mapping with
    | some value => Dictionary.empty.set AttributeName.mapGroupsToRoles.localName value
    | none => .empty
  push ⟨address, ps⟩
  extend content
  succeed .realmCompiled "Security realm translated"
    [("realm", name), ("operations", toString (content.size + 1))]
  return names

def securityRealms (grammar : GrammarNamespace) (management : Address) : Compilation δ Unit := do
  requireNoAttributes
  discard <| forChildren grammar NameSet.empty fun names element =>
    match element with
    | .securityRealm => securityRealm grammar management names
    | _ => unexpectedElement

end ManagementScript.Compilation
