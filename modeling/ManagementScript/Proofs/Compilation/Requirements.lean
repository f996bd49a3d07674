import Mathlib
import ManagementScript.Proofs.Compilation.Translators
import ManagementScript.Proofs.Schema.Missing

/-!
The compilations of elements with required attributes. Each of them reads the attributes of its start tag
before anything else, so a missing attribute is reported on the start tag, together with all others that
are missing, before a child is read and before a command is added.
-/

namespace ManagementScript

/-- The start tag that the cursor is on, as an element with nothing inside. -/
def Cursor.startTag (c : Cursor) : Element := c.element []

namespace Compilation

variable {δ α β : Type}

/-- The compilation begins with the attributes of the construct. -/
def BeginsWith (construct : Construct) (m : Compilation δ α) : Prop :=
  ∃ ps g, construct.Fresh ps ∧ m = readInto construct ps >>= g

theorem beginsWith_readParameters {construct : Construct} {g : Parameters → Compilation δ α}
    (hf : construct.Fresh ps) : BeginsWith construct (readParameters construct ps >>= g) := by
  refine ⟨ps, fun r => g r.parameters, hf, ?_⟩
  rw [readParameters, bind_assoc]
  simp only [pure_bind]

theorem beginsWith_readNamed (construct : Construct) (g : String × Parameters → Compilation δ α) :
    BeginsWith construct (readNamed construct >>= g) := by
  refine ⟨.empty, fun r => g (r.identifier.getD "", r.parameters), construct.fresh_empty, ?_⟩
  rw [readNamed, bind_assoc]
  simp only [pure_bind]

theorem beginsWith_located (construct : Construct)
    (g : Position → String × Parameters → Compilation δ α) :
    BeginsWith construct (location >>= fun p => readNamed construct >>= g p) := by
  rw [location_readNamed_bind]
  exact beginsWith_readNamed ..

theorem beginsWith_leaf (construct : Construct) (address : Address) :
    BeginsWith construct (leaf construct address : Compilation δ Unit) :=
  beginsWith_readParameters construct.fresh_empty

theorem beginsWith_partOf {construct : Construct} (h : ∀ x ∈ construct.parameters, x.2.kind ≠ .list)
    (ps : Parameters) : BeginsWith construct (partOf construct ps : Compilation δ Parameters) :=
  beginsWith_readParameters (Construct.fresh_of_noLists h ps)

/-- The compilations of elements with required attributes, and what these may carry. -/
inductive Requires (grammar : GrammarNamespace) :
    Construct → {α : Type} → Compilation δ α → Prop where
  | ldapConnection (management : Address) (names : NameSet) :
      Requires grammar .ldapConnection (ldapConnection grammar management names)
  | property (owner : Address) (valueRequired : Bool) (names : NameSet) :
      Requires grammar (.property valueRequired) (property owner valueRequired names)
  | securityRealm (management : Address) (names : NameSet) :
      Requires grammar .securityRealm (securityRealm grammar management names)
  | plugIn (realm : Address) (modules : NameSet) :
      Requires grammar .plugInModule (plugIn realm modules)
  | secret (address : Address) : Requires grammar .secret (leaf .secret address)
  | keystore (ps : Parameters) :
      Requires grammar (.keyMaterial true) (partOf (.keyMaterial true) ps)
  | truststore (address : Address) :
      Requires grammar (.keyMaterial false) (leaf (.keyMaterial false) address)
  | keytab (kerberos : Address) : Requires grammar .keytab (keytab kerberos)
  | jaas (address : Address) : Requires grammar .jaas (leaf .jaas address)
  | propertiesFile (withPasswords : Bool) (address : Address) :
      Requires grammar (.propertiesFile withPasswords) (leaf (.propertiesFile withPasswords) address)
  | plugInSource (address : Address) (withMechanism : Bool) :
      Requires grammar (.plugInSource withMechanism) (plugInSource grammar address withMechanism)
  | user (users : Address) (names : NameSet) : Requires grammar .user (user grammar users names)
  | ldapAuthentication (realm : Address) :
      Requires grammar .ldapAuthentication (ldapAuthentication grammar realm)
  | authenticationFilter (advanced : Bool) (ps : Parameters) :
      Requires grammar (.authenticationFilter advanced) (partOf (.authenticationFilter advanced) ps)
  | ldapAuthorization (realm : Address) :
      Requires grammar .ldapAuthorization (ldapAuthorization grammar realm)
  | userSearch (advanced : Bool) (ps : Parameters) :
      Requires grammar (.userSearch advanced) (partOf (.userSearch advanced) ps)
  | groupToPrincipal (ps : Parameters) :
      Requires grammar .groupToPrincipal (groupToPrincipal grammar ps)
  | membershipFilter (ps : Parameters) :
      Requires grammar .membershipFilter (partOf .membershipFilter ps)

variable {grammar : GrammarNamespace} {construct : Construct} {m : Compilation δ α}

theorem Requires.regular (h : Requires grammar construct m) : construct.Regular := by
  cases h with
  | property owner valueRequired names => exact Construct.regular_property valueRequired
  | propertiesFile withPasswords address => cases withPasswords <;> decide
  | plugInSource address withMechanism => exact Construct.regular_plugInSource withMechanism
  | authenticationFilter advanced ps => exact Construct.regular_authenticationFilter advanced
  | userSearch advanced ps => exact Construct.regular_userSearch advanced
  | _ => decide

theorem Requires.beginsWith (h : Requires grammar construct m) : BeginsWith construct m := by
  cases h with
  | ldapConnection | property | securityRealm | plugIn | user => exact beginsWith_located ..
  | keytab => exact beginsWith_readNamed ..
  | secret | truststore | jaas | propertiesFile => exact beginsWith_leaf ..
  | plugInSource | ldapAuthentication | ldapAuthorization =>
    exact beginsWith_readParameters (Construct.fresh_empty _)
  | groupToPrincipal ps => exact beginsWith_readParameters (Construct.fresh_of_noLists (by decide) ps)
  | keystore ps => exact beginsWith_partOf (by decide) ps
  | membershipFilter ps => exact beginsWith_partOf (by decide) ps
  | authenticationFilter advanced ps => exact beginsWith_partOf (by cases advanced <;> decide) ps
  | userSearch advanced ps => exact beginsWith_partOf (by cases advanced <;> decide) ps

/-- The attributes of a start tag that are there are all accepted. The reading fails exactly for those that
are missing, and it does not move. -/
theorem readInto_present {s : CompilationState δ} (hc : construct.Regular) (hf : construct.Fresh ps)
    (hd : s.cursor.Distinct) (h : construct.AcceptsPresent s.cursor.startTag) :
    readInto construct ps s =
      if construct.missing s.cursor.startTag.named = [] then
        (.ok (construct.reading ps s.cursor.startTag.named), s)
      else (.error (.missingAttributes s.cursor.localName
        ((construct.missing s.cursor.startTag.named).map (·.localName)) s.cursor.position), s) := by
  split
  · next hm => exact (readInto_eq_ok hc hf hd []).2 ⟨h.accepts hm, rfl, rfl⟩
  · next hm =>
    have hk : ∀ a ∈ s.cursor.attributes, AttributeName.ofString a.localName ≠ .unknown := by
      intro a ha hunknown
      obtain ⟨d, hdef, _⟩ := h.listed _ (List.mem_map_of_mem ha)
      rw [hunknown, hc.known] at hdef
      cases hdef
    have hattrs : attributes s = (.ok s.cursor.startTag.named, s) :=
      (attributes_eq_ok []).2 ⟨fun a ha => ⟨h.unlabelled a ha, hk a ha⟩, rfl, rfl⟩
    rw [readInto, getCursor_bind, bind_apply, hattrs]
    exact congrArg (·, s) (hc.read_missing (hd.nodup_named [] h.unlabelled hk) hf h.listed hm)

namespace PathlessKeytab

def source : String := "<keytab principal='p' debug='true'/>"

/-- The state on the start tag of a keytab that has no path. -/
def state : CompilationState Unit := ⟨(Cursor.ofString source).next.2, .empty, (), #[]⟩

theorem onStart : (Cursor.ofString source).next = (.ok .start, state.cursor) := Prod.ext (by cbv) rfl

theorem attributes_eq : state.cursor.attributes =
    [⟨none, "principal", "p"⟩, ⟨none, "debug", "true"⟩] := by cbv

theorem named : state.cursor.startTag.named = [(.principal, "p"), (.debug, "true")] := by
  rw [Element.named, Cursor.startTag, Cursor.element, attributes_eq]
  rfl

theorem present : Construct.keytab.AcceptsPresent state.cursor.startTag where
  listed := by
    rw [named, List.forall_mem_cons, List.forall_mem_singleton]
    exact ⟨⟨_, rfl, rfl⟩, ⟨_, rfl, rfl⟩⟩
  unlabelled := by
    rw [Cursor.startTag, Cursor.element, attributes_eq, List.forall_mem_cons, List.forall_mem_singleton]
    exact ⟨rfl, rfl⟩

end PathlessKeytab

end Compilation

end ManagementScript
