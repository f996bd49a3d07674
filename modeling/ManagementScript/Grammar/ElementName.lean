/-! The element names of the management grammar. -/

namespace ManagementScript

/-- An element name. Every name outside the vocabulary is `unknown`. -/
inductive ElementName where
  | server
  | host
  | domain
  | management
  | securityRealms
  | outboundConnections
  | managementInterfaces
  | auditLog
  | accessControl
  | configurationChanges
  | securityRealm
  | plugIns
  | plugIn
  | serverIdentities
  | secret
  | ssl
  | engine
  | keystore
  | kerberos
  | keytab
  | authentication
  | authorization
  | truststore
  | localMechanism
  | jaas
  | ldap
  | properties
  | property
  | users
  | user
  | password
  | cache
  | advancedFilter
  | usernameFilter
  | usernameIsDn
  | usernameToDn
  | groupSearch
  | groupToPrincipal
  | principalToGroup
  | membershipFilter
  | unknown
deriving DecidableEq, Repr

namespace ElementName

/-- The name as it is written in documents. -/
def localName : ElementName → String
  | server => "server"
  | host => "host"
  | domain => "domain"
  | management => "management"
  | securityRealms => "security-realms"
  | outboundConnections => "outbound-connections"
  | managementInterfaces => "management-interfaces"
  | auditLog => "audit-log"
  | accessControl => "access-control"
  | configurationChanges => "configuration-changes"
  | securityRealm => "security-realm"
  | plugIns => "plug-ins"
  | plugIn => "plug-in"
  | serverIdentities => "server-identities"
  | secret => "secret"
  | ssl => "ssl"
  | engine => "engine"
  | keystore => "keystore"
  | kerberos => "kerberos"
  | keytab => "keytab"
  | authentication => "authentication"
  | authorization => "authorization"
  | truststore => "truststore"
  | localMechanism => "local"
  | jaas => "jaas"
  | ldap => "ldap"
  | properties => "properties"
  | property => "property"
  | users => "users"
  | user => "user"
  | password => "password"
  | cache => "cache"
  | advancedFilter => "advanced-filter"
  | usernameFilter => "username-filter"
  | usernameIsDn => "username-is-dn"
  | usernameToDn => "username-to-dn"
  | groupSearch => "group-search"
  | groupToPrincipal => "group-to-principal"
  | principalToGroup => "principal-to-group"
  | membershipFilter => "membership-filter"
  | unknown => "unknown"

/-- Every name of the vocabulary, in order. -/
def vocabulary : List ElementName := [
  server, host, domain, management, securityRealms, outboundConnections, managementInterfaces,
  auditLog, accessControl, configurationChanges, securityRealm, plugIns, plugIn, serverIdentities,
  secret, ssl, engine, keystore, kerberos, keytab, authentication, authorization, truststore,
  localMechanism, jaas, ldap, properties, property, users, user, password, cache, advancedFilter,
  usernameFilter, usernameIsDn, usernameToDn, groupSearch, groupToPrincipal, principalToGroup,
  membershipFilter]

/-- The element with the given name. -/
def ofString (name : String) : ElementName :=
  (vocabulary.find? (·.localName == name)).getD unknown

instance : ToString ElementName := ⟨localName⟩

/-- The place of a name in the vocabulary. -/
def index (element : ElementName) : Nat := element.ctorIdx

/-- The elements that may stand around the management element as the root of a document. -/
def isDocumentRoot (element : ElementName) : Bool :=
  element == server || element == host || element == domain

theorem ofString_localName (element : ElementName) : ofString element.localName = element := by
  cases element <;> decide +kernel

theorem localName_ofString {name : String} (h : ofString name ≠ .unknown) :
    (ofString name).localName = name := by
  rw [ofString] at h ⊢
  cases hf : vocabulary.find? (·.localName == name) with
  | none =>
    rw [hf] at h
    exact absurd rfl h
  | some element =>
    have hp := List.find?_some hf
    exact eq_of_beq hp

theorem index_injective {a b : ElementName} (h : a.index = b.index) : a = b := by
  cases a <;> cases b <;> first | rfl | exact absurd h (by decide)

/-- The vocabulary has fewer names than a word has bits. -/
theorem index_lt (element : ElementName) : element.index < 64 := by
  cases element <;> decide

end ElementName

end ManagementScript
