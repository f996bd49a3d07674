import ManagementScript.Proofs.Compilation.FilteredScope

/-! The compilation of authentication and authorization by a directory. -/

namespace ManagementScript.Compilation

open Resource (commandsOfAll)

variable {δ : Type} (grammar : GrammarNamespace) (owner : Address)

theorem compiles_ldapAuthentication :
    Compiles (ldapAuthentication grammar owner : Compilation δ Unit) (·.IsLdapAuthentication grammar)
      fun e => .ofCommands (e.ldapAuthentication.commands owner) := by
  apply (FilteredScope.authentication.compiles grammar owner).congr (fun _ _ => Iff.rfl) fun _ _ => rfl
  intro e h
  rw [Element.ldapAuthentication, Resource.commands,
    commands_caches grammar _ FilteredScope.authentication.cache_notMem_alternatives h.inside]
  rfl

theorem compiles_usernameToDn :
    Compiles (usernameToDn grammar owner : Compilation δ Unit) (·.IsUsernameToDn grammar)
      fun e => .ofCommands (e.usernameToDn.commands owner) := by
  apply (FilteredScope.userSearch.compiles grammar owner).congr (fun _ _ => Iff.rfl) fun _ _ => rfl
  intro e h
  rw [Element.usernameToDn, Resource.commands,
    commands_caches grammar _ FilteredScope.userSearch.cache_notMem_alternatives h.inside]
  rfl

theorem compiles_groupSearch :
    Compiles (groupSearch grammar owner : Compilation δ Unit) (·.IsGroupSearch grammar)
      fun e => .ofCommands (e.groupSearch.commands owner) := by
  apply (FilteredScope.groupSearch.compiles grammar owner).congr (fun _ _ => Iff.rfl) fun _ _ => rfl
  intro e h
  rw [Element.groupSearch, Resource.commands,
    commands_caches grammar _ FilteredScope.groupSearch.cache_notMem_alternatives h.inside]
  rfl

theorem compiles_directorySearches (address : Address) : Compiles (do
    discard <| forChildren grammar ElementSet.empty fun seen element => do
      match element with
      | .usernameToDn =>
        let seen ← once seen element
        usernameToDn grammar address
        return seen
      | .groupSearch =>
        let seen ← once seen element
        groupSearch grammar address
        return seen
      | _ => unexpectedElement : Compilation δ Unit)
    (·.HoldsApart grammar [] (Element.IsDirectorySearch grammar))
    fun e => .ofCommands (commandsOfAll address (e.children.map (·.directorySearch))) := by
  simp only [Resource.commandsOfAll_map, ← Output.concat_ofCommands]
  apply Compiles.apart
  intro seen element
  cases element with
  | usernameToDn =>
    exact (compiles_usernameToDn grammar address).once (by simp)
      (fun e he => by simp only [Element.IsDirectorySearch, he])
      fun e he => by simp only [Element.directorySearch, he]
  | groupSearch =>
    exact (compiles_groupSearch grammar address).once (by simp)
      (fun e he => by simp only [Element.IsDirectorySearch, he])
      fun e he => by simp only [Element.directorySearch, he]
  | _ =>
    exact takes_unexpectedElement fun e he => by
      simp only [Element.IsDirectorySearch, he, not_false_eq_true]

theorem compiles_ldapAuthorization :
    Compiles (ldapAuthorization grammar owner : Compilation δ Unit) (·.IsLdapAuthorization grammar)
      fun e => .ofCommands (e.ldapAuthorization.commands owner) := by
  have hc : Construct.ldapAuthorization.Regular := by decide
  apply Reads.congr
  · apply Reads.readParameters_bind hc (Construct.fresh_empty _)
    intro t
    exact (adds_push _).bind_reads (compiles_directorySearches grammar _)
  · intro e _
    exact ⟨fun h => ⟨h.1, h.2.2⟩, fun h => ⟨h.tag, trivial, h.inside⟩⟩
  · intro e _
    rfl
  · intro e _
    rfl

end ManagementScript.Compilation
