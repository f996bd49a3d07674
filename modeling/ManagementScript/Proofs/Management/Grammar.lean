import ManagementScript.Compilation.Authorization
import ManagementScript.Proofs.Schema.Acceptance

/-!
The grammar of the management element, as a predicate on trees for each of its constructs: the
attributes that a start tag carries, the children that may stand inside, and which of them exclude
each other.
-/

namespace ManagementScript.Element

variable (grammar : GrammarNamespace)

/-- Elements of different kinds that are not both in the group. -/
def Apart (group : List ElementName) (c d : Element) : Prop :=
  c.kind ≠ d.kind ∧ ¬(c.kind ∈ group ∧ d.kind ∈ group)

/-- Elements that are named differently by an attribute. -/
def Unlike (attr : AttributeName) (c d : Element) : Prop := c.nameBy attr ≠ d.nameBy attr

/-- Children of different kinds, no two of them from the group. -/
def HoldsApart (group : List ElementName) (accepts : Element → Prop) (e : Element) : Prop :=
  e.Holds grammar (Apart group) accepts

/-- Children of one kind under different names. -/
def HoldsNamed (kind : ElementName) (attr : AttributeName) (accepts : Element → Prop)
    (e : Element) : Prop :=
  e.Holds grammar (Unlike attr) fun c => c.kind = kind ∧ accepts c

/-- A start tag with the attributes of a construct, and nothing inside. -/
structure IsLeaf (construct : Construct) (e : Element) : Prop where
  tag : construct.Accepts e
  empty : e.IsEmpty

/-- A start tag without attributes, around what is accepted. -/
structure IsPlain (inside : Element → Prop) (e : Element) : Prop where
  tag : e.attributes = []
  inside : inside e

/-- A start tag with the attributes of a construct, around what is accepted. -/
structure IsTagged (construct : Construct) (inside : Element → Prop) (e : Element) : Prop where
  tag : construct.Accepts e
  inside : inside e

/-! ### Properties and connections -/

def IsProperties (valueRequired : Bool) : Element → Prop :=
  IsPlain (HoldsNamed grammar .property .name (IsLeaf (.property valueRequired)))

/-- Inside may stand properties, once. -/
def HoldsProperties (valueRequired : Bool) : Element → Prop :=
  HoldsApart grammar [] fun c => c.kind = .properties ∧ c.IsProperties grammar valueRequired

def IsLdapConnection : Element → Prop := IsTagged .ldapConnection (HoldsProperties grammar true)

def IsOutboundConnections : Element → Prop :=
  IsPlain (HoldsNamed grammar .ldap .name (IsLdapConnection grammar))

/-! ### Server identities -/

def IsSslPart (c : Element) : Prop :=
  match c.kind with
  | .engine => c.IsLeaf .engine
  | .keystore => c.IsLeaf (.keyMaterial true)
  | _ => False

def IsSsl : Element → Prop := IsTagged .ssl (HoldsApart grammar [] IsSslPart)

/-- The principals of a server. Several of them may have one name. -/
def IsKerberosIdentity : Element → Prop :=
  IsPlain fun e => e.Holds grammar (fun _ _ => True) fun c => c.kind = .keytab ∧ c.IsLeaf .keytab

def IsServerIdentity (c : Element) : Prop :=
  match c.kind with
  | .secret => c.IsLeaf .secret
  | .ssl => c.IsSsl grammar
  | .kerberos => c.IsKerberosIdentity grammar
  | _ => False

def IsServerIdentities : Element → Prop :=
  IsPlain (HoldsApart grammar [] (IsServerIdentity grammar))

/-! ### Directories -/

/-- Inside stands one filter of several alternatives, and before it at most a cache. -/
structure HoldsFilter (alternatives : List ElementName) (accepts : Element → Prop) (e : Element) :
    Prop where
  children : e.Holds grammar (fun c d => c.kind = .cache ∧ d.kind ∈ alternatives) fun c =>
    c.kind = .cache ∧ c.IsLeaf .cache ∨ c.kind ∈ alternatives ∧ accepts c
  filter : ∃ c ∈ e.children, c.kind ∈ alternatives

def authenticationFilters : List ElementName := [.advancedFilter, .usernameFilter]

def IsLdapAuthentication : Element → Prop :=
  IsTagged .ldapAuthentication (HoldsFilter grammar authenticationFilters fun c =>
    c.IsLeaf (.authenticationFilter (c.kind == .advancedFilter)))

def userFilters : List ElementName := [.usernameIsDn, .usernameFilter, .advancedFilter]

def IsUserFilter (c : Element) : Prop :=
  match c.kind with
  | .usernameIsDn => c.IsPlain IsEmpty
  | kind => c.IsLeaf (.userSearch (kind == .advancedFilter))

def IsUsernameToDn : Element → Prop :=
  IsTagged .usernameToDn (HoldsFilter grammar userFilters IsUserFilter)

def IsGroupToPrincipal : Element → Prop :=
  IsTagged .groupToPrincipal (HoldsApart grammar [] fun c =>
    c.kind = .membershipFilter ∧ c.IsLeaf .membershipFilter)

def groupFilters : List ElementName := [.groupToPrincipal, .principalToGroup]

def IsGroupFilter (c : Element) : Prop :=
  match c.kind with
  | .groupToPrincipal => c.IsGroupToPrincipal grammar
  | _ => c.IsLeaf .principalToGroup

def IsGroupSearch : Element → Prop :=
  IsTagged .groupSearch (HoldsFilter grammar groupFilters (IsGroupFilter grammar))

def IsDirectorySearch (c : Element) : Prop :=
  match c.kind with
  | .usernameToDn => c.IsUsernameToDn grammar
  | .groupSearch => c.IsGroupSearch grammar
  | _ => False

def IsLdapAuthorization : Element → Prop :=
  IsTagged .ldapAuthorization (HoldsApart grammar [] (IsDirectorySearch grammar))

/-! ### Authentication and authorization -/

def IsPlugInSource (withMechanism : Bool) : Element → Prop :=
  IsTagged (.plugInSource withMechanism) (HoldsProperties grammar false)

/-- Text, without the white space around it. -/
def trimmedText (e : Element) : String := Text.trimmed e.text

/-- A user has one password, which is not blank. -/
def IsUser : Element → Prop :=
  IsTagged .user fun e => ∃ c, e.children = [c] ∧ e.IsBlank ∧ c.namespaceUri = some grammar.uri ∧
    c.kind = .password ∧ c.attributes = [] ∧ c.children = [] ∧ c.trimmedText ≠ ""

def IsUsers : Element → Prop := IsPlain (HoldsNamed grammar .user .username (IsUser grammar))

def IsAuthenticationSource (c : Element) : Prop :=
  match c.kind with
  | .truststore => c.IsLeaf (.keyMaterial false)
  | .localMechanism => c.IsLeaf .localMechanism
  | .kerberos => c.IsLeaf .kerberos
  | .jaas => c.IsLeaf .jaas
  | .ldap => c.IsLdapAuthentication grammar
  | .properties => c.IsLeaf (.propertiesFile true)
  | .users => c.IsUsers grammar
  | .plugIn => c.IsPlugInSource grammar true
  | _ => False

def IsAuthentication : Element → Prop :=
  IsPlain (HoldsApart grammar Compilation.passwordSources (IsAuthenticationSource grammar))

def IsAuthorizationSource (c : Element) : Prop :=
  match c.kind with
  | .properties => c.IsLeaf (.propertiesFile false)
  | .plugIn => c.IsPlugInSource grammar false
  | .ldap => c.IsLdapAuthorization grammar
  | _ => False

def IsAuthorization : Element → Prop :=
  IsTagged .authorization
    (HoldsApart grammar Compilation.groupSources (IsAuthorizationSource grammar))

/-! ### Security realms -/

def IsPlugIns : Element → Prop :=
  IsPlain (HoldsNamed grammar .plugIn .module (IsLeaf .plugInModule))

def IsRealmPart (c : Element) : Prop :=
  match c.kind with
  | .plugIns => c.IsPlugIns grammar
  | .serverIdentities => c.IsServerIdentities grammar
  | .authentication => c.IsAuthentication grammar
  | .authorization => c.IsAuthorization grammar
  | _ => False

def IsSecurityRealm : Element → Prop :=
  IsTagged .securityRealm (HoldsApart grammar [] (IsRealmPart grammar))

def IsSecurityRealms : Element → Prop :=
  IsPlain (HoldsNamed grammar .securityRealm .name (IsSecurityRealm grammar))

/-- The parts of a management element that are compiled without a delegate. -/
def IsManagementPart (c : Element) : Prop :=
  match c.kind with
  | .securityRealms => c.IsSecurityRealms grammar
  | .outboundConnections => c.IsOutboundConnections grammar
  | .configurationChanges => c.IsLeaf .configurationChanges
  | _ => False

def IsManagement : Element → Prop := IsPlain (HoldsApart grammar [] (IsManagementPart grammar))

/-! ### The kinds of what is accepted -/

variable {grammar} {c : Element}

theorem kind_of_isServerIdentity (h : c.IsServerIdentity grammar) :
    c.kind = .secret ∧ c.IsLeaf .secret ∨ c.kind = .ssl ∧ c.IsSsl grammar ∨
      c.kind = .kerberos ∧ c.IsKerberosIdentity grammar := by
  simp only [IsServerIdentity] at h
  split at h
  · next hk => exact .inl ⟨hk, h⟩
  · next hk => exact .inr (.inl ⟨hk, h⟩)
  · next hk => exact .inr (.inr ⟨hk, h⟩)
  · cases h

theorem kind_of_isDirectorySearch (h : c.IsDirectorySearch grammar) :
    c.kind = .usernameToDn ∧ c.IsUsernameToDn grammar ∨
      c.kind = .groupSearch ∧ c.IsGroupSearch grammar := by
  simp only [IsDirectorySearch] at h
  split at h
  · next hk => exact .inl ⟨hk, h⟩
  · next hk => exact .inr ⟨hk, h⟩
  · cases h

theorem kind_of_isAuthorizationSource (h : c.IsAuthorizationSource grammar) :
    c.kind = .properties ∧ c.IsLeaf (.propertiesFile false) ∨
      c.kind = .plugIn ∧ c.IsPlugInSource grammar false ∨
      c.kind = .ldap ∧ c.IsLdapAuthorization grammar := by
  simp only [IsAuthorizationSource] at h
  split at h
  · next hk => exact .inl ⟨hk, h⟩
  · next hk => exact .inr (.inl ⟨hk, h⟩)
  · next hk => exact .inr (.inr ⟨hk, h⟩)
  · cases h

theorem kind_of_isRealmPart (h : c.IsRealmPart grammar) :
    c.kind = .plugIns ∧ c.IsPlugIns grammar ∨
      c.kind = .serverIdentities ∧ c.IsServerIdentities grammar ∨
      c.kind = .authentication ∧ c.IsAuthentication grammar ∨
      c.kind = .authorization ∧ c.IsAuthorization grammar := by
  simp only [IsRealmPart] at h
  split at h
  · next hk => exact .inl ⟨hk, h⟩
  · next hk => exact .inr (.inl ⟨hk, h⟩)
  · next hk => exact .inr (.inr (.inl ⟨hk, h⟩))
  · next hk => exact .inr (.inr (.inr ⟨hk, h⟩))
  · cases h

theorem kind_of_isManagementPart (h : c.IsManagementPart grammar) :
    c.kind = .securityRealms ∧ c.IsSecurityRealms grammar ∨
      c.kind = .outboundConnections ∧ c.IsOutboundConnections grammar ∨
      c.kind = .configurationChanges ∧ c.IsLeaf .configurationChanges := by
  simp only [IsManagementPart] at h
  split at h
  · next hk => exact .inl ⟨hk, h⟩
  · next hk => exact .inr (.inl ⟨hk, h⟩)
  · next hk => exact .inr (.inr ⟨hk, h⟩)
  · cases h

end ManagementScript.Element
