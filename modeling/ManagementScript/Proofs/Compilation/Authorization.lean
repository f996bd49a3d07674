import ManagementScript.Compilation.Authorization
import ManagementScript.Proofs.Compilation.Authentication

/-! The compilation of the sources that groups and roles are found in. -/

namespace ManagementScript.Compilation

open Resource (commandsOfAll)

variable {δ : Type} (grammar : GrammarNamespace) (owner : Address)

theorem compiles_authorizationSources : Compiles (do
      discard <| forChildren grammar ElementSet.empty fun seen element => do
        let address := owner.append "authorization" element.localName
        match element with
        | .properties =>
          let seen ← exclusive seen element groupSources
          leaf (.propertiesFile false) address
          return seen
        | .plugIn =>
          let seen ← exclusive seen element groupSources
          plugInSource grammar address false
          return seen
        | .ldap =>
          let seen ← exclusive seen element groupSources
          ldapAuthorization grammar owner
          return seen
        | _ => unexpectedElement : Compilation δ Unit)
    (·.HoldsApart grammar groupSources (Element.IsAuthorizationSource grammar))
    fun e => .ofCommands (commandsOfAll owner (e.children.map (·.authorizationSource))) := by
  have hfile : (Construct.propertiesFile false).Regular := by decide
  simp only [Resource.commandsOfAll_map, ← Output.concat_ofCommands]
  apply Compiles.apart
  intro seen element
  cases element with
  | properties =>
    exact (compiles_leaf hfile _).exclusive (by decide)
      (fun e he => by simp only [Element.IsAuthorizationSource, he])
      fun e he => by simp only [Element.authorizationSource, he]; rfl
  | plugIn =>
    exact (compiles_plugInSource grammar _ false).exclusive (by decide)
      (fun e he => by simp only [Element.IsAuthorizationSource, he])
      fun e he => by simp only [Element.authorizationSource, he]; rfl
  | ldap =>
    exact (compiles_ldapAuthorization grammar owner).exclusive (by decide)
      (fun e he => by simp only [Element.IsAuthorizationSource, he])
      fun e he => by simp only [Element.authorizationSource, he]
  | _ =>
    exact takes_unexpectedElement fun e he => by
      simp only [Element.IsAuthorizationSource, he, not_false_eq_true]

/-- The value that an authorization gives its realm. -/
def roleMapping (e : Element) : Option Value :=
  (Construct.authorization.parametersOf e).get? AttributeName.mapGroupsToRoles.localName

theorem reads_authorization : Reads (authorization grammar owner : Compilation δ (Option Value))
    (·.IsAuthorization grammar) roleMapping
    fun e => .ofCommands (commandsOfAll owner (e.children.map (·.authorizationSource))) := by
  have hc : Construct.authorization.Regular := by decide
  apply Reads.congr
  · apply Reads.readParameters_bind hc (Construct.fresh_empty _)
    intro t
    exact (compiles_authorizationSources grammar owner).bind fun _ => adds_pure _
  · intro e _
    exact ⟨fun h => ⟨h.1, h.2.1⟩, fun h => ⟨h.tag, h.inside, trivial⟩⟩
  · intro e _
    rfl
  · intro e _
    exact Output.append_nil _

end ManagementScript.Compilation
