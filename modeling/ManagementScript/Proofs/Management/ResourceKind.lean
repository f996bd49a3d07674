import ManagementScript.Proofs.Management.Resource
import ManagementScript.Proofs.Schema.Typing

/-!
Kinds of resources. The kind of a resource is told by the way to it from the management resource, and
it tells which parameters the resource has.
-/

namespace ManagementScript

open AttributeDefinition (string boolean int list enumerated)

/-- The parameters of a resource: those that it may have, those that it always has, those of which it
has exactly one, if there are such, and those that it has only together with another. -/
structure Signature where
  parameters : List AttributeDefinition
  required : List String
  alternatives : List String
  companions : List (String × String)

namespace Signature

/-- Parameters that do not depend on each other. -/
def independent (parameters : List AttributeDefinition) (required : List String) : Signature :=
  ⟨parameters, required, [], []⟩

/-- The names of parameters are declared, and the values admitted. -/
def Declares (g : Signature) (pairs : List (String × Value)) : Prop :=
  ∀ x ∈ pairs, ∃ d ∈ g.parameters, d.parameter = x.1 ∧ d.Admits x.2

/-- Every parameter is declared, and none is missing. -/
structure Admits (g : Signature) (ps : Parameters) : Prop where
  declared : g.Declares ps.entries
  required : ∀ p ∈ g.required, ps.contains p = true
  alternative : g.alternatives ≠ [] →
    ∃ p ∈ g.alternatives, ∀ q ∈ g.alternatives, ps.contains q = true ↔ q = p
  companion : ∀ x ∈ g.companions, ps.contains x.1 = true → ps.contains x.2 = true

end Signature

inductive ResourceKind where
  | management
  | configurationChanges
  | ldapConnection
  | connectionProperty
  | securityRealm
  | plugInModule
  | secret
  | ssl
  | kerberosIdentity
  | keytab
  | truststore
  | localMechanism
  | kerberos
  | jaas
  | ldapAuthentication
  | passwordFile
  | users
  | user
  | authenticationPlugIn
  | groupFile
  | authorizationPlugIn
  | plugInProperty
  | ldapAuthorization
  | userByDn
  | userByName
  | userByFilter
  | groupsOfMember
  | groupsOfPrincipal
  | cache
deriving DecidableEq, Repr

namespace ResourceKind

/-- What stands one step below a resource. -/
def child? : ResourceKind → Segment → Option ResourceKind
  | management, ⟨"service", "configuration-changes"⟩ => some configurationChanges
  | management, ⟨"ldap-connection", _⟩ => some ldapConnection
  | management, ⟨"security-realm", _⟩ => some securityRealm
  | ldapConnection, ⟨"property", _⟩ => some connectionProperty
  | securityRealm, ⟨"plug-in", _⟩ => some plugInModule
  | securityRealm, ⟨"server-identity", "secret"⟩ => some secret
  | securityRealm, ⟨"server-identity", "ssl"⟩ => some ssl
  | securityRealm, ⟨"server-identity", "kerberos"⟩ => some kerberosIdentity
  | kerberosIdentity, ⟨"keytab", _⟩ => some keytab
  | securityRealm, ⟨"authentication", "truststore"⟩ => some truststore
  | securityRealm, ⟨"authentication", "local"⟩ => some localMechanism
  | securityRealm, ⟨"authentication", "kerberos"⟩ => some kerberos
  | securityRealm, ⟨"authentication", "jaas"⟩ => some jaas
  | securityRealm, ⟨"authentication", "ldap"⟩ => some ldapAuthentication
  | securityRealm, ⟨"authentication", "properties"⟩ => some passwordFile
  | securityRealm, ⟨"authentication", "users"⟩ => some users
  | users, ⟨"user", _⟩ => some user
  | securityRealm, ⟨"authentication", "plug-in"⟩ => some authenticationPlugIn
  | securityRealm, ⟨"authorization", "properties"⟩ => some groupFile
  | securityRealm, ⟨"authorization", "plug-in"⟩ => some authorizationPlugIn
  | securityRealm, ⟨"authorization", "ldap"⟩ => some ldapAuthorization
  | authenticationPlugIn, ⟨"property", _⟩ | authorizationPlugIn, ⟨"property", _⟩ =>
    some plugInProperty
  | ldapAuthorization, ⟨"username-to-dn", "username-is-dn"⟩ => some userByDn
  | ldapAuthorization, ⟨"username-to-dn", "username-filter"⟩ => some userByName
  | ldapAuthorization, ⟨"username-to-dn", "advanced-filter"⟩ => some userByFilter
  | ldapAuthorization, ⟨"group-search", "group-to-principal"⟩ => some groupsOfMember
  | ldapAuthorization, ⟨"group-search", "principal-to-group"⟩ => some groupsOfPrincipal
  | ldapAuthentication, ⟨"cache", _⟩ | userByDn, ⟨"cache", _⟩ | userByName, ⟨"cache", _⟩
  | userByFilter, ⟨"cache", _⟩ | groupsOfMember, ⟨"cache", _⟩ | groupsOfPrincipal, ⟨"cache", _⟩ =>
    some cache
  | _, _ => none

/-- The kind of what stands at the end of a way down. -/
def below? (kind : ResourceKind) : List Segment → Option ResourceKind
  | [] => some kind
  | s :: path => (kind.child? s).bind (·.below? path)

def keyStore : List AttributeDefinition :=
  [string "keystore-provider", string "keystore-path", string "keystore-relative-to",
    string "keystore-password"]

def userSearch : List AttributeDefinition :=
  [boolean "force", string "base-dn", boolean "recursive", string "user-dn-attribute"]

def groupSearch : List AttributeDefinition :=
  [enumerated "group-name" ["SIMPLE", "DISTINGUISHED"], boolean "iterative",
    string "group-dn-attribute", string "group-name-attribute"]

/-- The parameters of each kind of resource. -/
def signature : ResourceKind → Signature
  | management | plugInModule | kerberosIdentity | users => .independent [] []
  | configurationChanges => .independent [(int "max-history").withMin 0] []
  | ldapConnection =>
    .independent
      [string "url", string "search-dn", string "search-credential", string "security-realm",
        string "initial-context-factory", enumerated "referrals" ["IGNORE", "FOLLOW", "THROW"],
        list "handles-referrals-for"]
      ["url"]
  | connectionProperty | secret => .independent [string "value"] ["value"]
  | securityRealm => .independent [boolean "map-groups-to-roles"] []
  | ssl => {
    parameters := string "protocol" :: list "enabled-cipher-suites" :: list "enabled-protocols" ::
      keyStore ++
      [string "alias", string "key-password", string "generate-self-signed-certificate-host"]
    required := []
    alternatives := []
    companions :=
      ["keystore-provider", "keystore-path", "keystore-relative-to", "alias", "key-password",
        "generate-self-signed-certificate-host"].map (·, "keystore-password") }
  | keytab =>
    .independent [string "path", string "relative-to", list "for-hosts", boolean "debug"] ["path"]
  | truststore => .independent keyStore ["keystore-password"]
  | localMechanism =>
    .independent [string "default-user", string "allowed-users", boolean "skip-group-loading"] []
  | kerberos => .independent [boolean "remove-realm"] []
  | jaas => .independent [string "name", boolean "assign-groups"] ["name"]
  | ldapAuthentication => {
    parameters :=
      [string "connection", string "base-dn", boolean "recursive", string "user-dn",
        boolean "allow-empty-passwords", string "username-load", string "advanced-filter",
        string "username-attribute"]
    required := ["connection", "base-dn"]
    alternatives := ["advanced-filter", "username-attribute"]
    companions := [] }
  | passwordFile =>
    .independent [string "path", string "relative-to", boolean "plain-text"] ["path"]
  | user => .independent [string "password"] ["password"]
  | authenticationPlugIn =>
    .independent [string "name", enumerated "mechanism" ["DIGEST", "PLAIN"]] ["name"]
  | groupFile => .independent [string "path", string "relative-to"] ["path"]
  | authorizationPlugIn => .independent [string "name"] ["name"]
  | plugInProperty => .independent [string "value"] []
  | ldapAuthorization => .independent [string "connection"] ["connection"]
  | userByDn => .independent [boolean "force"] []
  | userByName => .independent (userSearch ++ [string "attribute"]) ["base-dn"]
  | userByFilter => .independent (userSearch ++ [string "filter"]) ["base-dn", "filter"]
  | groupsOfMember =>
    .independent
      (groupSearch ++
        [string "base-dn", boolean "recursive", enumerated "search-by" ["SIMPLE", "DISTINGUISHED"],
          boolean "prefer-original-connection", string "principal-attribute"])
      ["base-dn"]
  | groupsOfPrincipal =>
    .independent
      (groupSearch ++
        [string "group-attribute", boolean "prefer-original-connection",
          boolean "skip-missing-groups"])
      []
  | cache =>
    .independent
      [(int "eviction-time").withMin 1, boolean "cache-failures", (int "max-cache-size").withMin 0]
      []

end ResourceKind

namespace Resource

mutual

/-- The resource may stand below one of the given kind: there it has a kind, its parameters are
admitted by it, and so on further down. -/
def Typed (kind : ResourceKind) : Resource → Prop
  | mk segment parameters children => ∃ k, kind.child? segment = some k ∧
    k.signature.Admits parameters ∧ AllTyped k children

def AllTyped (kind : ResourceKind) : List Resource → Prop
  | [] => True
  | r :: rs => r.Typed kind ∧ AllTyped kind rs

end

theorem allTyped_iff {kind : ResourceKind} {rs : List Resource} :
    AllTyped kind rs ↔ ∀ r ∈ rs, r.Typed kind := by
  induction rs with
  | nil => simp [AllTyped]
  | cons r rs ih => rw [AllTyped, ih, List.forall_mem_cons]

mutual

/-- A command below a resource of the given kind is that of a resource which its address tells. -/
theorem typed_of_mem_commands {kind : ResourceKind} {owner : Address} :
    ∀ r : Resource, r.Typed kind → c ∈ r.commands owner → ∃ path k,
      c.address.segments = owner.segments ++ path ∧ kind.below? path = some k ∧
        k.signature.Admits c.parameters
  | mk ⟨key, value⟩ _ children, h, hc => by
    obtain ⟨k, hk, hps, hchildren⟩ := h
    cases hc with
    | head =>
      refine ⟨[⟨key, value⟩], k, rfl, ?_, hps⟩
      simp [ResourceKind.below?, hk]
    | tail _ hc =>
      obtain ⟨path, l, hp, hl, hps⟩ := typed_of_mem_commandsOfAll children hchildren hc
      refine ⟨⟨key, value⟩ :: path, l, ?_, ?_, hps⟩
      · rw [hp]
        simp [Address.append]
      · simp [ResourceKind.below?, hk, hl]

theorem typed_of_mem_commandsOfAll {kind : ResourceKind} {owner : Address} :
    ∀ rs : List Resource, AllTyped kind rs → c ∈ commandsOfAll owner rs → ∃ path k,
      c.address.segments = owner.segments ++ path ∧ kind.below? path = some k ∧
        k.signature.Admits c.parameters
  | r :: rs, h, hc => by
    cases List.mem_append.1 hc with
    | inl hc => exact typed_of_mem_commands r h.1 hc
    | inr hc => exact typed_of_mem_commandsOfAll rs h.2 hc

end

end Resource

end ManagementScript
