import ManagementScript.Compilation.FilterScope
import ManagementScript.Compilation.Identities

/-! Authentication and authorization by a directory. -/

namespace ManagementScript.Compilation

variable {δ : Type}

/-- Users are found by a filter expression or by an attribute that holds their name. -/
def ldapAuthentication (grammar : GrammarNamespace) (realm : Address) : Compilation δ Unit := do
  let ps ← readParameters .ldapAuthentication .empty
  let (_, cache, ps) ← filterScope grammar [.advancedFilter, .usernameFilter] ps fun ps filter =>
    partOf (.authenticationFilter (filter == .advancedFilter)) ps
  pushWithCache ⟨realm.append "authentication" "ldap", ps⟩ cache

/-- How the entry of a user is found from the user's name. -/
def usernameToDn (grammar : GrammarNamespace) (ldap : Address) : Compilation δ Unit := do
  let ps ← readParameters .usernameToDn .empty
  let (filter, cache, ps) ←
    filterScope grammar [.usernameIsDn, .usernameFilter, .advancedFilter] ps fun ps filter => do
      match filter with
      | .usernameIsDn =>
        requireNoAttributes
        requireNoContent
        return ps
      | _ => partOf (.userSearch (filter == .advancedFilter)) ps
  pushWithCache ⟨ldap.append "username-to-dn" filter.localName, ps⟩ cache

/-- Groups that hold their members. -/
def groupToPrincipal (grammar : GrammarNamespace) (ps : Parameters) : Compilation δ Parameters := do
  let ps ← readParameters .groupToPrincipal ps
  let (_, ps) ← forChildren grammar (ElementSet.empty, ps) fun (seen, ps) element => do
    match element with
    | .membershipFilter =>
      let seen ← once seen element
      return (seen, ← partOf .membershipFilter ps)
    | _ => unexpectedElement
  return ps

/-- How the groups of a user are found. -/
def groupSearch (grammar : GrammarNamespace) (ldap : Address) : Compilation δ Unit := do
  let ps ← readParameters .groupSearch .empty
  let (filter, cache, ps) ←
    filterScope grammar [.groupToPrincipal, .principalToGroup] ps fun ps filter =>
      match filter with
      | .groupToPrincipal => groupToPrincipal grammar ps
      | _ => partOf .principalToGroup ps
  pushWithCache ⟨ldap.append "group-search" filter.localName, ps⟩ cache

def ldapAuthorization (grammar : GrammarNamespace) (realm : Address) : Compilation δ Unit := do
  let address := realm.append "authorization" "ldap"
  let ps ← readParameters .ldapAuthorization .empty
  push ⟨address, ps⟩
  discard <| forChildren grammar ElementSet.empty fun seen element => do
    match element with
    | .usernameToDn =>
      let seen ← once seen element
      usernameToDn grammar address
      return seen
    | .groupSearch =>
      let seen ← once seen element
      groupSearch grammar address
      return seen
    | _ => unexpectedElement

end ManagementScript.Compilation
