import ManagementScript.Schema.Construct

/-! The constructs of the management grammar. -/

namespace ManagementScript.Construct

open AttributeDefinition (string boolean int list enumerated)

def configurationChanges : Construct :=
  ofParameters [(.maxHistory, (int "max-history").withMin 0)] []

/-! ### Outbound connections -/

def ldapConnection : Construct :=
  named .name
    [(.url, string "url"),
      (.searchDn, string "search-dn"),
      (.searchCredential, string "search-credential"),
      (.securityRealm, string "security-realm"),
      (.initialContextFactory, string "initial-context-factory"),
      (.referrals, enumerated "referrals" ["IGNORE", "FOLLOW", "THROW"]),
      (.handlesReferralsFor, list "handles-referrals-for")]
    [.name, .url]

/-- A property, which may have to have a value. -/
def property (valueRequired : Bool) : Construct :=
  named .name [(.value, string "value")] (if valueRequired then [.name, .value] else [.name])

/-! ### Security realms -/

def securityRealm : Construct := only .name

def plugInModule : Construct := only .module

/-! ### Server identities -/

def secret : Construct := ofParameters [(.value, string "value")] [.value]

def ssl : Construct := ofParameters [(.protocol, string "protocol")] []

def engine : Construct :=
  ofParameters
    [(.enabledCipherSuites, list "enabled-cipher-suites"),
      (.enabledProtocols, list "enabled-protocols")]
    []

/-- A store of keys or of trusted certificates; only a store of keys has a key of its own. -/
def keyMaterial (withKey : Bool) : Construct :=
  ofParameters
    ([(.provider, string "keystore-provider"),
      (.path, string "keystore-path"),
      (.relativeTo, string "keystore-relative-to"),
      (.keystorePassword, string "keystore-password")] ++
      if withKey then
        [(.aliasName, string "alias"),
          (.keyPassword, string "key-password"),
          (.generateSelfSignedCertificateHost, string "generate-self-signed-certificate-host")]
      else [])
    [.keystorePassword]

def keytab : Construct :=
  named .principal
    [(.path, string "path"),
      (.relativeTo, string "relative-to"),
      (.forHosts, list "for-hosts"),
      (.debug, boolean "debug")]
    [.principal, .path]

/-! ### Authentication and authorization -/

def localMechanism : Construct :=
  ofParameters
    [(.defaultUser, string "default-user"),
      (.allowedUsers, string "allowed-users"),
      (.skipGroupLoading, boolean "skip-group-loading")]
    []

def kerberos : Construct := ofParameters [(.removeRealm, boolean "remove-realm")] []

def jaas : Construct :=
  ofParameters [(.name, string "name"), (.assignGroups, boolean "assign-groups")] [.name]

/-- A file of properties; only one with passwords can say that they are in plain text. -/
def propertiesFile (withPasswords : Bool) : Construct :=
  ofParameters
    ([(.path, string "path"), (.relativeTo, string "relative-to")] ++
      if withPasswords then [(.plainText, boolean "plain-text")] else [])
    [.path]

/-- A plug-in as a source; only one for authentication has a mechanism. -/
def plugInSource (withMechanism : Bool) : Construct :=
  ofParameters
    ((.name, string "name") ::
      if withMechanism then [(.mechanism, enumerated "mechanism" ["DIGEST", "PLAIN"])] else [])
    [.name]

def user : Construct := only .username

def authorization : Construct :=
  ofParameters [(.mapGroupsToRoles, boolean "map-groups-to-roles")] []

/-! ### Directories -/

def searchModes : List String := ["SIMPLE", "DISTINGUISHED"]

/-- A cache is named by its kind. -/
def cache : Construct where
  identifier := some (.kind, (enumerated "type" ["by-search-time", "by-access-time"]).literal)
  parameters :=
    [(.evictionTime, (int "eviction-time").withMin 1),
      (.cacheFailures, boolean "cache-failures"),
      (.maxCacheSize, (int "max-cache-size").withMin 0)]
  required := []

def ldapAuthentication : Construct :=
  ofParameters
    [(.connection, string "connection"),
      (.baseDn, string "base-dn"),
      (.recursive, boolean "recursive"),
      (.userDn, string "user-dn"),
      (.allowEmptyPasswords, boolean "allow-empty-passwords"),
      (.usernameLoad, string "username-load")]
    [.connection, .baseDn]

/-- The filter of an authentication by a directory. -/
def authenticationFilter (advanced : Bool) : Construct :=
  if advanced then ofParameters [(.filter, string "advanced-filter")] [.filter]
  else ofParameters [(.attributeName, string "username-attribute")] [.attributeName]

def ldapAuthorization : Construct := ofParameters [(.connection, string "connection")] [.connection]

def usernameToDn : Construct := ofParameters [(.force, boolean "force")] []

/-- The search for a user. -/
def userSearch (advanced : Bool) : Construct :=
  ofParameters
    [(.baseDn, string "base-dn"),
      (.recursive, boolean "recursive"),
      (.userDnAttribute, string "user-dn-attribute"),
      if advanced then (.filter, string "filter") else (.attributeName, string "attribute")]
    (if advanced then [.baseDn, .filter] else [.baseDn])

def groupSearch : Construct :=
  ofParameters
    [(.groupName, enumerated "group-name" searchModes),
      (.iterative, boolean "iterative"),
      (.groupDnAttribute, string "group-dn-attribute"),
      (.groupNameAttribute, string "group-name-attribute")]
    []

def groupToPrincipal : Construct :=
  ofParameters
    [(.baseDn, string "base-dn"),
      (.recursive, boolean "recursive"),
      (.searchBy, enumerated "search-by" searchModes),
      (.preferSameConnection, boolean "prefer-original-connection")]
    [.baseDn]

def membershipFilter : Construct :=
  ofParameters [(.principalAttribute, string "principal-attribute")] [.principalAttribute]

def principalToGroup : Construct :=
  ofParameters
    [(.groupAttribute, string "group-attribute"),
      (.preferSameConnection, boolean "prefer-original-connection"),
      (.skipMissingGroups, boolean "skip-missing-groups")]
    []

end ManagementScript.Construct
