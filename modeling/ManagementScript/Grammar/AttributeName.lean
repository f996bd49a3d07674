/-! The attribute names of the management grammar. -/

namespace ManagementScript

/-- An attribute name. Every name outside the vocabulary is `unknown`. -/
inductive AttributeName where
  | name
  | value
  | path
  | relativeTo
  | module
  | maxHistory
  | url
  | searchDn
  | searchCredential
  | securityRealm
  | initialContextFactory
  | referrals
  | handlesReferralsFor
  | protocol
  | enabledCipherSuites
  | enabledProtocols
  | provider
  | keystorePassword
  | aliasName
  | keyPassword
  | generateSelfSignedCertificateHost
  | principal
  | forHosts
  | debug
  | removeRealm
  | assignGroups
  | connection
  | baseDn
  | recursive
  | userDn
  | allowEmptyPasswords
  | usernameLoad
  | filter
  | attributeName
  | defaultUser
  | allowedUsers
  | skipGroupLoading
  | plainText
  | username
  | mechanism
  | kind
  | evictionTime
  | cacheFailures
  | maxCacheSize
  | mapGroupsToRoles
  | force
  | userDnAttribute
  | groupName
  | iterative
  | groupDnAttribute
  | groupNameAttribute
  | searchBy
  | preferSameConnection
  | principalAttribute
  | groupAttribute
  | skipMissingGroups
  | unknown
deriving DecidableEq, Repr

namespace AttributeName

/-- The name as it is written in documents. -/
def localName : AttributeName → String
  | name => "name"
  | value => "value"
  | path => "path"
  | relativeTo => "relative-to"
  | module => "module"
  | maxHistory => "max-history"
  | url => "url"
  | searchDn => "search-dn"
  | searchCredential => "search-credential"
  | securityRealm => "security-realm"
  | initialContextFactory => "initial-context-factory"
  | referrals => "referrals"
  | handlesReferralsFor => "handles-referrals-for"
  | protocol => "protocol"
  | enabledCipherSuites => "enabled-cipher-suites"
  | enabledProtocols => "enabled-protocols"
  | provider => "provider"
  | keystorePassword => "keystore-password"
  | aliasName => "alias"
  | keyPassword => "key-password"
  | generateSelfSignedCertificateHost => "generate-self-signed-certificate-host"
  | principal => "principal"
  | forHosts => "for-hosts"
  | debug => "debug"
  | removeRealm => "remove-realm"
  | assignGroups => "assign-groups"
  | connection => "connection"
  | baseDn => "base-dn"
  | recursive => "recursive"
  | userDn => "user-dn"
  | allowEmptyPasswords => "allow-empty-passwords"
  | usernameLoad => "username-load"
  | filter => "filter"
  | attributeName => "attribute"
  | defaultUser => "default-user"
  | allowedUsers => "allowed-users"
  | skipGroupLoading => "skip-group-loading"
  | plainText => "plain-text"
  | username => "username"
  | mechanism => "mechanism"
  | kind => "type"
  | evictionTime => "eviction-time"
  | cacheFailures => "cache-failures"
  | maxCacheSize => "max-cache-size"
  | mapGroupsToRoles => "map-groups-to-roles"
  | force => "force"
  | userDnAttribute => "user-dn-attribute"
  | groupName => "group-name"
  | iterative => "iterative"
  | groupDnAttribute => "group-dn-attribute"
  | groupNameAttribute => "group-name-attribute"
  | searchBy => "search-by"
  | preferSameConnection => "prefer-original-connection"
  | principalAttribute => "principal-attribute"
  | groupAttribute => "group-attribute"
  | skipMissingGroups => "skip-missing-groups"
  | unknown => "unknown"

/-- Every name of the vocabulary, in order. -/
def vocabulary : List AttributeName := [
  name, value, path, relativeTo, module, maxHistory, url, searchDn, searchCredential,
  securityRealm, initialContextFactory, referrals, handlesReferralsFor, protocol,
  enabledCipherSuites, enabledProtocols, provider, keystorePassword, aliasName, keyPassword,
  generateSelfSignedCertificateHost, principal, forHosts, debug, removeRealm, assignGroups,
  connection, baseDn, recursive, userDn, allowEmptyPasswords, usernameLoad, filter, attributeName,
  defaultUser, allowedUsers, skipGroupLoading, plainText, username, mechanism, kind, evictionTime,
  cacheFailures, maxCacheSize, mapGroupsToRoles, force, userDnAttribute, groupName, iterative,
  groupDnAttribute, groupNameAttribute, searchBy, preferSameConnection, principalAttribute,
  groupAttribute, skipMissingGroups]

/-- The attribute with the given name. -/
def ofString (name : String) : AttributeName :=
  (vocabulary.find? (·.localName == name)).getD unknown

instance : ToString AttributeName := ⟨localName⟩

theorem ofString_localName (attr : AttributeName) : ofString attr.localName = attr := by
  cases attr <;> decide +kernel

end AttributeName

end ManagementScript
