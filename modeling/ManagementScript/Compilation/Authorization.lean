import ManagementScript.Compilation.Authentication

/-! How the groups and roles of the users of a realm are found. -/

namespace ManagementScript.Compilation

variable {δ : Type}

/-- The sources of groups. A realm has at most one of them. -/
def groupSources : List ElementName := [.properties, .plugIn, .ldap]

/-- The authorization of a realm. Whether groups are mapped to roles is told to the caller, since it
is a parameter of the realm. -/
def authorization (grammar : GrammarNamespace) (realm : Address) : Compilation δ (Option Value) := do
  let ps ← readParameters .authorization .empty
  discard <| forChildren grammar ElementSet.empty fun seen element => do
    let address := realm.append "authorization" element.localName
    match element with
    | .properties =>
      let seen ← exclusive seen element groupSources
      leaf (.propertiesFile false) address
      return seen
    | .plugIn =>
      let seen ← exclusive seen element groupSources
      plugInSource grammar address false
      return seen
    | .ldap =>
      let seen ← exclusive seen element groupSources
      ldapAuthorization grammar realm
      return seen
    | _ => unexpectedElement
  return ps.get? AttributeName.mapGroupsToRoles.localName

end ManagementScript.Compilation
