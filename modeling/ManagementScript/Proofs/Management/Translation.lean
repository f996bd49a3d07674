import ManagementScript.Proofs.Management.Grammar
import ManagementScript.Proofs.Management.Resource

/-!
The resources that a management element stands for, by recursion over its tree. What an element of
the grammar becomes depends on its attributes and on the children that it holds; the grammar itself
is not looked at.
-/

namespace ManagementScript.Element

/-! ### Properties and connections -/

def property (valueRequired : Bool) (e : Element) : Resource :=
  .leaf "property" (e.nameBy .name) ((Construct.property valueRequired).parametersOf e)

/-- The properties of a resource whose children are lists of properties. -/
def propertiesInside (valueRequired : Bool) (e : Element) : List Resource :=
  e.children.flatMap fun c => c.children.map (property valueRequired)

def ldapConnection (e : Element) : Resource :=
  ⟨⟨"ldap-connection", e.nameBy .name⟩, Construct.ldapConnection.parametersOf e,
    e.propertiesInside true⟩

/-! ### Server identities -/

/-- The parameters that a part of an encrypted connection adds to it. -/
def sslPart (c : Element) : List (String × Value) :=
  match c.kind with
  | .engine => Construct.engine.entries c
  | _ => (Construct.keyMaterial true).entries c

def ssl (e : Element) : Resource :=
  .leaf "server-identity" "ssl" (.ofList (Construct.ssl.entries e ++ e.children.flatMap sslPart))

def keytab (e : Element) : Resource :=
  .leaf "keytab" (e.nameBy .principal) (Construct.keytab.parametersOf e)

def kerberosIdentity (e : Element) : Resource :=
  ⟨⟨"server-identity", "kerberos"⟩, .empty, e.children.map keytab⟩

def serverIdentity (c : Element) : Resource :=
  match c.kind with
  | .secret => .leaf "server-identity" "secret" (Construct.secret.parametersOf c)
  | .ssl => c.ssl
  | _ => c.kerberosIdentity

/-! ### Directories -/

def cache (c : Element) : Resource :=
  .leaf "cache" ((c.attribute? .kind).getD "by-search-time") (Construct.cache.parametersOf c)

/-- The cache of a scope with a filter, if there is one. -/
def caches (e : Element) : List Resource :=
  (e.children.filter (·.kind == .cache)).map cache

/-- The filters of a scope; an element of the grammar has one. -/
def filters (e : Element) : List Element := e.children.filter (·.kind != .cache)

def filterKind (e : Element) : ElementName := (e.filters.map (·.kind)).headD .unknown

/-- Inside a scope with a filter stands exactly one of them: two would need to have it after each
other. -/
theorem exists_filters_eq {grammar : GrammarNamespace} {e : Element} {alternatives : List ElementName}
    {accepts : Element → Prop} (h : e.HoldsFilter grammar alternatives accepts)
    (hcache : .cache ∉ alternatives) :
    ∃ c, e.filters = [c] ∧ c.kind ∈ alternatives ∧ accepts c := by
  have hnot {c : Element} (hc : c ∈ e.filters) : c ∈ e.children ∧ c.kind ≠ .cache := by
    simpa [filters] using hc
  have hpair : e.filters.Pairwise fun _ _ => False :=
    (h.children.compatible.filter _).imp_of_mem fun hc _ hcd => (hnot hc).2 hcd.1
  obtain ⟨c, hc, hk⟩ := h.filter
  have hmem : c ∈ e.filters := by
    simp only [filters, List.mem_filter, bne_iff_ne]
    exact ⟨hc, fun he => hcache (he ▸ hk)⟩
  cases hf : e.filters with
  | nil => simp [hf] at hmem
  | cons d rest =>
    rw [hf] at hpair
    have hrest : rest = [] := List.eq_nil_iff_forall_not_mem.2 (List.pairwise_cons.1 hpair).1
    obtain ⟨hd, hkind⟩ := hnot (hf ▸ List.mem_cons_self ..)
    refine ⟨d, by rw [hrest], ?_⟩
    cases h.children.accepted d hd with
    | inl h => exact absurd h.1 hkind
    | inr h => exact h

def ldapAuthentication (e : Element) : Resource :=
  ⟨⟨"authentication", "ldap"⟩,
    .ofList (Construct.ldapAuthentication.entries e ++ e.filters.flatMap fun c =>
      (Construct.authenticationFilter (c.kind == .advancedFilter)).entries c),
    e.caches⟩

def userFilter (c : Element) : List (String × Value) :=
  match c.kind with
  | .usernameIsDn => []
  | kind => (Construct.userSearch (kind == .advancedFilter)).entries c

def usernameToDn (e : Element) : Resource :=
  ⟨⟨"username-to-dn", e.filterKind.localName⟩,
    .ofList (Construct.usernameToDn.entries e ++ e.filters.flatMap userFilter), e.caches⟩

def groupFilter (c : Element) : List (String × Value) :=
  match c.kind with
  | .groupToPrincipal =>
    Construct.groupToPrincipal.entries c ++ c.children.flatMap Construct.membershipFilter.entries
  | _ => Construct.principalToGroup.entries c

def groupSearch (e : Element) : Resource :=
  ⟨⟨"group-search", e.filterKind.localName⟩,
    .ofList (Construct.groupSearch.entries e ++ e.filters.flatMap groupFilter), e.caches⟩

def directorySearch (c : Element) : Resource :=
  match c.kind with
  | .usernameToDn => c.usernameToDn
  | _ => c.groupSearch

def ldapAuthorization (e : Element) : Resource :=
  ⟨⟨"authorization", "ldap"⟩, Construct.ldapAuthorization.parametersOf e,
    e.children.map directorySearch⟩

/-! ### Authentication and authorization -/

/-- A user, with the text of the password inside. -/
def user (e : Element) : Resource :=
  let password := (e.children.map trimmedText).headD ""
  .leaf "user" (e.nameBy .username)
    (.ofList [("password", if isExpression password then .expression password else .string password)])

/-- What becomes of a source of authentication; its name is that of the resource. -/
def authenticationSource (c : Element) : Resource :=
  match c.kind with
  | .truststore => .leaf "authentication" "truststore" ((Construct.keyMaterial false).parametersOf c)
  | .localMechanism => .leaf "authentication" "local" (Construct.localMechanism.parametersOf c)
  | .kerberos => .leaf "authentication" "kerberos" (Construct.kerberos.parametersOf c)
  | .jaas => .leaf "authentication" "jaas" (Construct.jaas.parametersOf c)
  | .ldap => c.ldapAuthentication
  | .properties =>
    .leaf "authentication" "properties" ((Construct.propertiesFile true).parametersOf c)
  | .users => ⟨⟨"authentication", "users"⟩, .empty, c.children.map user⟩
  | _ =>
    ⟨⟨"authentication", "plug-in"⟩, (Construct.plugInSource true).parametersOf c,
      c.propertiesInside false⟩

def authorizationSource (c : Element) : Resource :=
  match c.kind with
  | .properties =>
    .leaf "authorization" "properties" ((Construct.propertiesFile false).parametersOf c)
  | .plugIn =>
    ⟨⟨"authorization", "plug-in"⟩, (Construct.plugInSource false).parametersOf c,
      c.propertiesInside false⟩
  | _ => c.ldapAuthorization

/-! ### Security realms -/

def plugIn (e : Element) : Resource := .leaf "plug-in" (e.nameBy .module) .empty

/-- The resources of a part of a realm. -/
def realmPart (c : Element) : List Resource :=
  match c.kind with
  | .plugIns => c.children.map plugIn
  | .serverIdentities => c.children.map serverIdentity
  | .authentication => c.children.map authenticationSource
  | _ => c.children.map authorizationSource

/-- The parameters that a part of a realm adds to it. -/
def realmParameter (c : Element) : List (String × Value) :=
  match c.kind with
  | .authorization => Construct.authorization.entries c
  | _ => []

def securityRealm (e : Element) : Resource :=
  ⟨⟨"security-realm", e.nameBy .name⟩, .ofList (e.children.flatMap realmParameter),
    e.children.flatMap realmPart⟩

/-- The resources of a part of a management element. -/
def managementPart (c : Element) : List Resource :=
  match c.kind with
  | .securityRealms => c.children.map securityRealm
  | .outboundConnections => c.children.map ldapConnection
  | _ =>
    [.leaf "service" "configuration-changes" (Construct.configurationChanges.parametersOf c)]

/-- The resources of a management element. -/
def resources (e : Element) : List Resource := e.children.flatMap managementPart

/-- The commands that a management element is translated into, below the resource at `base`. -/
def commands (e : Element) (base : Address) : List Command :=
  Resource.commandsOfAll (base.append "core-service" "management") e.resources

/-! ### The places of resources -/

theorem segment_serverIdentity (h : IsServerIdentity grammar c) :
    c.serverIdentity.segment = ⟨"server-identity", c.kind.localName⟩ := by
  obtain ⟨hk, _⟩ | ⟨hk, _⟩ | ⟨hk, _⟩ := kind_of_isServerIdentity h
  all_goals
    simp only [serverIdentity, hk]
    rfl

theorem segment_authenticationSource (h : IsAuthenticationSource grammar c) :
    c.authenticationSource.segment = ⟨"authentication", c.kind.localName⟩ := by
  simp only [IsAuthenticationSource] at h
  split at h
  case h_9 => cases h
  all_goals
    next hk =>
    simp only [authenticationSource, hk]
    rfl

theorem segment_authorizationSource (h : IsAuthorizationSource grammar c) :
    c.authorizationSource.segment = ⟨"authorization", c.kind.localName⟩ := by
  obtain ⟨hk, _⟩ | ⟨hk, _⟩ | ⟨hk, _⟩ := kind_of_isAuthorizationSource h
  all_goals
    simp only [authorizationSource, hk]
    rfl

theorem segment_directorySearch (h : IsDirectorySearch grammar c) :
    c.directorySearch.segment = ⟨c.kind.localName, c.filterKind.localName⟩ := by
  obtain ⟨hk, _⟩ | ⟨hk, _⟩ := kind_of_isDirectorySearch h
  all_goals
    simp only [directorySearch, hk]
    rfl

end ManagementScript.Element
