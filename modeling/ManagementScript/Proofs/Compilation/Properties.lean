import ManagementScript.Compilation.Connections
import ManagementScript.Proofs.Compilation.Scopes
import ManagementScript.Proofs.Management.Translation

/-! The compilation of properties, and of the connections that have them. -/

namespace ManagementScript.Compilation

open Resource (commandsOfAll)

variable {δ : Type} (grammar : GrammarNamespace) (owner : Address)

theorem takes_property (valueRequired : Bool) (names : NameSet) :
    TakesNamed .name names (property owner valueRequired names : Compilation δ NameSet)
      (·.IsLeaf (.property valueRequired))
      fun e => .ofCommands ((e.property valueRequired).commands owner) := by
  have hname (e : Element) : (Construct.property valueRequired).nameOf e = e.nameBy .name :=
    Construct.nameOf_named ..
  apply Reads.congr
  · apply takes_reserved (Construct.regular_property valueRequired) hname
    intro t
    exact compiles_requireNoContent.bind fun _ => (adds_push _).bind (adds_pure _)
  · intro e _
    exact ⟨fun h => ⟨h.1, h.2.1, h.2.2.1⟩, fun h => ⟨h.1, h.2.tag, h.2.empty, trivial, trivial⟩⟩
  · intro e _
    rfl
  · intro e _
    rfl

theorem compiles_properties (valueRequired : Bool) :
    Compiles (properties grammar owner valueRequired : Compilation δ Unit)
      (·.IsProperties grammar valueRequired)
      fun e => .ofCommands (commandsOfAll owner (e.children.map (·.property valueRequired))) := by
  simp only [Resource.commandsOfAll_map, ← Output.concat_ofCommands]
  apply Compiles.plain
  apply Compiles.named (takes_property owner valueRequired) fun _ => rfl
  intro names element he
  split
  · exact absurd rfl he
  · rfl

theorem compiles_onlyProperties (valueRequired : Bool) :
    Compiles (onlyProperties grammar owner valueRequired : Compilation δ Unit)
      (·.HoldsProperties grammar valueRequired)
      fun e => .ofCommands (commandsOfAll owner (e.propertiesInside valueRequired)) := by
  simp only [Element.propertiesInside, Resource.commandsOfAll_flatMap, ← Output.concat_ofCommands]
  apply Compiles.apart
  intro seen element
  cases element with
  | properties =>
    exact (compiles_properties grammar owner valueRequired).once (by simp)
      (fun e he => by simp only [he, true_and]) fun e _ => rfl
  | _ => exact takes_unexpectedElement fun e he => by simp [he]

/-! ### Connections -/

/-- The report of a connection. -/
def connectionReport (e : Element) : LogEvent :=
  (LogEvent.success .connectionCompiled "Outbound connection translated").withFacts
    [("connection", e.nameBy .name)]

theorem takes_ldapConnection (names : NameSet) :
    TakesNamed .name names (ldapConnection grammar owner names : Compilation δ NameSet)
      (·.IsLdapConnection grammar)
      fun e => ⟨e.ldapConnection.commands owner, [connectionReport e]⟩ := by
  have hc : Construct.ldapConnection.Regular := by decide
  have hname (e : Element) : Construct.ldapConnection.nameOf e = e.nameBy .name :=
    Construct.nameOf_named ..
  apply Reads.congr
  · apply takes_reserved hc hname
    intro t
    apply (adds_push _).bind_reads
    apply (compiles_onlyProperties grammar _ true).bind
    intro _
    exact (adds_succeed _ _ _).bind (adds_pure _)
  · intro e _
    exact ⟨fun h => ⟨h.1, h.2.1, h.2.2.2.1⟩,
      fun h => ⟨h.1, h.2.tag, trivial, h.2.inside, trivial, trivial⟩⟩
  · intro e _
    rfl
  · intro e _
    apply Output.ext
    · simp [Output.ofCommands, Element.ldapConnection, Resource.commands]
    · simp [Output.ofCommands, connectionReport]

theorem compiles_outboundConnections :
    Compiles (outboundConnections grammar owner : Compilation δ Unit)
      (·.IsOutboundConnections grammar)
      fun e => ⟨commandsOfAll owner (e.children.map (·.ldapConnection)),
        e.children.map connectionReport⟩ := by
  simp only [Resource.commandsOfAll_map, ← Output.concat_reports]
  apply Compiles.plain
  apply Compiles.named (takes_ldapConnection grammar owner) fun _ => rfl
  intro names element he
  split
  · exact absurd rfl he
  · rfl

end ManagementScript.Compilation
