import ManagementScript.Proofs.Management.Translation

/-!
The roles of the elements of a management element that have children. The grammar asks the same of
an element in every role: a start tag, children that are accepted one by one, each behind others that
it is compatible with. And it becomes the same in every role: one resource or none, and the resources
of its children.
-/

namespace ManagementScript.Element

/-- What an element with children is inside a management element. -/
inductive Role where
  | management
  | securityRealms
  | securityRealm
  | plugIns
  | serverIdentities
  | ssl
  | kerberosIdentity
  | authentication
  | users
  | user
  | plugInSource (withMechanism : Bool)
  | properties (valueRequired : Bool)
  | ldapAuthentication
  | authorization
  | ldapAuthorization
  | usernameToDn
  | groupSearch
  | groupToPrincipal
  | outboundConnections
  | ldapConnection

namespace Role

/-- A child of the kind may stand in an element of the first role, and it has the second role there. -/
inductive Contains : Role → ElementName → Role → Prop where
  | securityRealms : Contains management .securityRealms securityRealms
  | securityRealm : Contains securityRealms .securityRealm securityRealm
  | plugIns : Contains securityRealm .plugIns plugIns
  | serverIdentities : Contains securityRealm .serverIdentities serverIdentities
  | ssl : Contains serverIdentities .ssl ssl
  | kerberosIdentity : Contains serverIdentities .kerberos kerberosIdentity
  | authentication : Contains securityRealm .authentication authentication
  | users : Contains authentication .users users
  | user : Contains users .user user
  | plugInAuthentication : Contains authentication .plugIn (plugInSource true)
  | plugInProperties : Contains (plugInSource withMechanism) .properties (properties false)
  | ldapAuthentication : Contains authentication .ldap ldapAuthentication
  | authorization : Contains securityRealm .authorization authorization
  | plugInAuthorization : Contains authorization .plugIn (plugInSource false)
  | ldapAuthorization : Contains authorization .ldap ldapAuthorization
  | usernameToDn : Contains ldapAuthorization .usernameToDn usernameToDn
  | groupSearch : Contains ldapAuthorization .groupSearch groupSearch
  | groupToPrincipal : Contains groupSearch .groupToPrincipal groupToPrincipal
  | outboundConnections : Contains management .outboundConnections outboundConnections
  | ldapConnection : Contains outboundConnections .ldap ldapConnection
  | connectionProperties : Contains ldapConnection .properties (properties true)

/-- From an element of the first role elements of the kinds lead to one of the second role. -/
inductive Leads : Role → List ElementName → Role → Prop where
  | here (r : Role) : Leads r [] r
  | inside (h : Contains r k r') (hrest : Leads r' path r'') : Leads r (k :: path) r''

/-! ### What the grammar asks -/

section

variable (grammar : GrammarNamespace)

/-- The element is one of the grammar in its role. -/
def Is : Role → Element → Prop
  | management => IsManagement grammar
  | securityRealms => IsSecurityRealms grammar
  | securityRealm => IsSecurityRealm grammar
  | plugIns => IsPlugIns grammar
  | serverIdentities => IsServerIdentities grammar
  | ssl => IsSsl grammar
  | kerberosIdentity => IsKerberosIdentity grammar
  | authentication => IsAuthentication grammar
  | users => IsUsers grammar
  | user => IsUser grammar
  | plugInSource withMechanism => IsPlugInSource grammar withMechanism
  | properties valueRequired => IsProperties grammar valueRequired
  | ldapAuthentication => IsLdapAuthentication grammar
  | authorization => IsAuthorization grammar
  | ldapAuthorization => IsLdapAuthorization grammar
  | usernameToDn => IsUsernameToDn grammar
  | groupSearch => IsGroupSearch grammar
  | groupToPrincipal => IsGroupToPrincipal grammar
  | outboundConnections => IsOutboundConnections grammar
  | ldapConnection => IsLdapConnection grammar

/-- The construct of the start tag, if it may have attributes. -/
def construct? : Role → Option Construct
  | securityRealm => some .securityRealm
  | ssl => some .ssl
  | user => some .user
  | plugInSource withMechanism => some (.plugInSource withMechanism)
  | ldapAuthentication => some .ldapAuthentication
  | authorization => some .authorization
  | ldapAuthorization => some .ldapAuthorization
  | usernameToDn => some .usernameToDn
  | groupSearch => some .groupSearch
  | groupToPrincipal => some .groupToPrincipal
  | ldapConnection => some .ldapConnection
  | management | securityRealms | plugIns | serverIdentities | kerberosIdentity | authentication
  | users | properties _ | outboundConnections => none

/-- The first child may stand before the second one. -/
def Compatible : Role → Element → Element → Prop
  | securityRealms | outboundConnections | properties _ => Unlike .name
  | plugIns => Unlike .module
  | users => Unlike .username
  | kerberosIdentity => fun _ _ => True
  | user => fun _ _ => False
  | authentication => Apart Compilation.passwordSources
  | authorization => Apart Compilation.groupSources
  | ldapAuthentication => fun c d => c.kind = .cache ∧ d.kind ∈ authenticationFilters
  | usernameToDn => fun c d => c.kind = .cache ∧ d.kind ∈ userFilters
  | groupSearch => fun c d => c.kind = .cache ∧ d.kind ∈ groupFilters
  | management | securityRealm | serverIdentities | ssl | plugInSource _ | ldapAuthorization
  | groupToPrincipal | ldapConnection => Apart []

/-- The grammar has such a child. -/
def AcceptsChild : Role → Element → Prop
  | management => IsManagementPart grammar
  | securityRealms => fun c => c.kind = .securityRealm ∧ c.IsSecurityRealm grammar
  | securityRealm => IsRealmPart grammar
  | plugIns => fun c => c.kind = .plugIn ∧ c.IsLeaf .plugInModule
  | serverIdentities => IsServerIdentity grammar
  | ssl => IsSslPart
  | kerberosIdentity => fun c => c.kind = .keytab ∧ c.IsLeaf .keytab
  | authentication => IsAuthenticationSource grammar
  | users => fun c => c.kind = .user ∧ c.IsUser grammar
  | user => fun c => c.kind = .password ∧ c.attributes = [] ∧ c.children = [] ∧ c.trimmedText ≠ ""
  | plugInSource _ => fun c => c.kind = .properties ∧ c.IsProperties grammar false
  | properties valueRequired => fun c => c.kind = .property ∧ c.IsLeaf (.property valueRequired)
  | ldapAuthentication => fun c => c.kind = .cache ∧ c.IsLeaf .cache ∨
      c.kind ∈ authenticationFilters ∧ c.IsLeaf (.authenticationFilter (c.kind == .advancedFilter))
  | authorization => IsAuthorizationSource grammar
  | ldapAuthorization => IsDirectorySearch grammar
  | usernameToDn => fun c => c.kind = .cache ∧ c.IsLeaf .cache ∨
      c.kind ∈ userFilters ∧ c.IsUserFilter
  | groupSearch => fun c => c.kind = .cache ∧ c.IsLeaf .cache ∨
      c.kind ∈ groupFilters ∧ c.IsGroupFilter grammar
  | groupToPrincipal => fun c => c.kind = .membershipFilter ∧ c.IsLeaf .membershipFilter
  | outboundConnections => fun c => c.kind = .ldap ∧ c.IsLdapConnection grammar
  | ldapConnection => fun c => c.kind = .properties ∧ c.IsProperties grammar true

/-- The kinds of children one of which must be there, if there are such. -/
def required? : Role → Option (List ElementName)
  | user => some [.password]
  | ldapAuthentication => some authenticationFilters
  | usernameToDn => some userFilters
  | groupSearch => some groupFilters
  | _ => none

/-- What the grammar asks of an element in its role. -/
structure Accepts (r : Role) (e : Element) : Prop where
  tag : r.construct?.elim (e.attributes = []) (·.Accepts e)
  children : e.Holds grammar r.Compatible (r.AcceptsChild grammar)
  required : ∀ kinds ∈ r.required?, ∃ c ∈ e.children, c.kind ∈ kinds

end

variable {grammar : GrammarNamespace} {r r' : Role} {e c c' : Element}

theorem isUser_iff : user.Accepts grammar e ↔ e.IsUser grammar := by
  apply Iff.intro
  · intro h
    obtain ⟨c, hc, _⟩ := h.required _ rfl
    obtain ⟨before, after, hsplit⟩ := List.append_of_mem hc
    have hpair : (before ++ c :: after).Pairwise fun _ _ => False := hsplit ▸ h.children.compatible
    obtain rfl : before = [] := List.eq_nil_iff_forall_not_mem.2 fun b hb =>
      (List.pairwise_append.1 hpair).2.2 b hb c (List.mem_cons_self ..)
    obtain rfl : after = [] := List.eq_nil_iff_forall_not_mem.2 fun b hb =>
      (List.pairwise_cons.1 hpair).1 b hb
    exact ⟨h.tag, c, hsplit, h.children.blank, h.children.namespaced c hc, h.children.accepted c hc⟩
  · intro h
    obtain ⟨c, hc, hb, hn, ha⟩ := h.inside
    refine ⟨h.tag, ⟨hb, ?_, ?_, ?_⟩, ?_⟩
    · rw [hc]
      exact List.forall_mem_singleton.2 hn
    · rw [hc]
      exact List.pairwise_singleton ..
    · rw [hc]
      exact List.forall_mem_singleton.2 ha
    · rintro _ ⟨⟩
      exact ⟨c, hc ▸ List.mem_singleton_self c, List.mem_singleton.2 ha.1⟩

/-- The grammar asks this, in every role. -/
theorem is_iff : r.Is grammar e ↔ r.Accepts grammar e := by
  cases r with
  | user => exact isUser_iff.symm
  | ldapAuthentication | usernameToDn | groupSearch =>
    apply Iff.intro
    · intro h
      exact ⟨h.tag, h.inside.children, by rintro _ ⟨⟩; exact h.inside.filter⟩
    · intro h
      exact ⟨h.tag, h.children, h.required _ rfl⟩
  | _ => exact ⟨fun h => ⟨h.tag, h.inside, nofun⟩, fun h => ⟨h.tag, h.children⟩⟩

/-! ### Children with children -/

/-- The child is empty, and it is accepted for its tag, whatever white space stands inside. -/
def AcceptsEmpty (grammar : GrammarNamespace) (r : Role) (c : Element) : Prop :=
  c.IsEmpty ∧ ∀ content, IsEmpty { c with content := content } →
    r.AcceptsChild grammar { c with content := content }

/-- How a child is accepted. -/
inductive Acceptance (grammar : GrammarNamespace) (r : Role) (c : Element) : Prop where
  | role {r' : Role} (h : Contains r c.kind r') (hc : r'.Is grammar c)
  | empty (h : r.AcceptsEmpty grammar c)
  | password (h : r = user)

@[simp] theorem kind_withContent (c : Element) (content : List Node) :
    kind { c with content := content } = c.kind := rfl

theorem Acceptance.inside (hk : c.kind = k) (hr : Contains r k r') (h : r'.Is grammar c) :
    r.Acceptance grammar c := .role (hk ▸ hr) h

/-- A leaf is accepted for its tag, if every leaf of its kind is accepted. -/
theorem Acceptance.leaf {construct : Construct} (h : c.IsLeaf construct)
    (hr : ∀ content, IsLeaf construct { c with content := content } →
      r.AcceptsChild grammar { c with content := content }) : r.Acceptance grammar c :=
  .empty ⟨h.empty, fun content hempty =>
    hr content ⟨⟨h.tag.toAcceptsNamed, h.tag.unlabelled⟩, hempty⟩⟩

theorem acceptance_sslPart (h : c.IsSslPart) : ssl.Acceptance grammar c := by
  have hleaf := @Acceptance.leaf grammar ssl c
  simp only [AcceptsChild, IsSslPart, kind_withContent] at h hleaf
  split at h
  · next hk => exact hleaf h fun content h => by simpa only [hk] using h
  · next hk => exact hleaf h fun content h => by simpa only [hk] using h
  · exact h.elim

theorem acceptance_authenticationSource (h : c.IsAuthenticationSource grammar) :
    authentication.Acceptance grammar c := by
  have hleaf := @Acceptance.leaf grammar authentication c
  simp only [AcceptsChild, IsAuthenticationSource, kind_withContent] at h hleaf
  split at h
  case h_5 hk => exact .inside hk .ldapAuthentication h
  case h_7 hk => exact .inside hk .users h
  case h_8 hk => exact .inside hk .plugInAuthentication h
  case h_9 => exact h.elim
  all_goals next hk => exact hleaf h fun content h => by simpa only [hk] using h

theorem acceptance_userFilter (hk : c.kind ∈ userFilters) (h : c.IsUserFilter) :
    usernameToDn.Acceptance grammar c := by
  simp only [IsUserFilter] at h
  split at h
  · next hdn =>
    refine .empty ⟨h.inside, fun content hempty => .inr ⟨hk, ?_⟩⟩
    simp only [IsUserFilter, kind_withContent, hdn]
    exact ⟨h.tag, hempty⟩
  · next hdn =>
    refine .leaf h fun content h => .inr ⟨hk, ?_⟩
    simpa only [IsUserFilter, kind_withContent] using h

theorem acceptance_groupFilter (hk : c.kind ∈ groupFilters) (h : c.IsGroupFilter grammar) :
    groupSearch.Acceptance grammar c := by
  simp only [IsGroupFilter] at h
  split at h
  · next hk => exact .inside hk .groupToPrincipal h
  · refine .leaf h fun content h => .inr ⟨hk, ?_⟩
    simpa only [IsGroupFilter, kind_withContent] using h

/-- A child is accepted in a role of its own, or for its tag, or it is a password. -/
theorem acceptance (h : r.AcceptsChild grammar c) : r.Acceptance grammar c := by
  cases r with
  | management =>
    obtain ⟨hk, h⟩ | ⟨hk, h⟩ | ⟨hk, h⟩ := kind_of_isManagementPart h
    · exact .inside hk .securityRealms h
    · exact .inside hk .outboundConnections h
    · refine .leaf h fun content h => ?_
      simpa only [AcceptsChild, IsManagementPart, kind_withContent, hk] using h
  | securityRealm =>
    obtain ⟨hk, h⟩ | ⟨hk, h⟩ | ⟨hk, h⟩ | ⟨hk, h⟩ := kind_of_isRealmPart h
    · exact .inside hk .plugIns h
    · exact .inside hk .serverIdentities h
    · exact .inside hk .authentication h
    · exact .inside hk .authorization h
  | serverIdentities =>
    obtain ⟨hk, h⟩ | ⟨hk, h⟩ | ⟨hk, h⟩ := kind_of_isServerIdentity h
    · refine .leaf h fun content h => ?_
      simpa only [AcceptsChild, IsServerIdentity, kind_withContent, hk] using h
    · exact .inside hk .ssl h
    · exact .inside hk .kerberosIdentity h
  | ssl => exact acceptance_sslPart h
  | authentication => exact acceptance_authenticationSource h
  | authorization =>
    obtain ⟨hk, h⟩ | ⟨hk, h⟩ | ⟨hk, h⟩ := kind_of_isAuthorizationSource h
    · refine .leaf h fun content h => ?_
      simpa only [AcceptsChild, IsAuthorizationSource, kind_withContent, hk] using h
    · exact .inside hk .plugInAuthorization h
    · exact .inside hk .ldapAuthorization h
  | ldapAuthorization =>
    obtain ⟨hk, h⟩ | ⟨hk, h⟩ := kind_of_isDirectorySearch h
    · exact .inside hk .usernameToDn h
    · exact .inside hk .groupSearch h
  | usernameToDn =>
    obtain ⟨hk, h⟩ | ⟨hk, h⟩ := h
    · exact .leaf h fun content h => .inl ⟨hk, h⟩
    · exact acceptance_userFilter hk h
  | groupSearch =>
    obtain ⟨hk, h⟩ | ⟨hk, h⟩ := h
    · exact .leaf h fun content h => .inl ⟨hk, h⟩
    · exact acceptance_groupFilter hk h
  | ldapAuthentication =>
    obtain ⟨hk, h⟩ | ⟨hk, h⟩ := h
    · exact .leaf h fun content h => .inl ⟨hk, h⟩
    · exact .leaf h fun content h => .inr ⟨hk, h⟩
  | plugIns | kerberosIdentity | properties | groupToPrincipal =>
    obtain ⟨hk, h⟩ := h
    exact .leaf h fun content h => ⟨hk, h⟩
  | user => exact .password rfl
  | securityRealms => exact .inside h.1 .securityRealm h.2
  | users => exact .inside h.1 .user h.2
  | plugInSource => exact .inside h.1 .plugInProperties h.2
  | outboundConnections => exact .inside h.1 .ldapConnection h.2
  | ldapConnection => exact .inside h.1 .connectionProperties h.2

/-- A child that has children itself is accepted in a role of its own. -/
theorem exists_contains (hc : c.children ≠ []) (h : r.AcceptsChild grammar c) :
    ∃ r', Contains r c.kind r' ∧ r'.Is grammar c := by
  cases acceptance h with
  | role hcontains hrole => exact ⟨_, hcontains, hrole⟩
  | empty hempty => exact absurd hempty.1.2 hc
  | password hr =>
    subst hr
    exact absurd h.2.2.1 hc

/-- An element of the grammar is accepted where its role is contained. -/
theorem Contains.acceptsChild (h : Contains r c.kind r') (hc : r'.Is grammar c) :
    r.AcceptsChild grammar c := by
  generalize hk : c.kind = k at h
  cases h with
  | groupToPrincipal =>
    refine .inr ⟨hk ▸ by decide, ?_⟩
    simp only [IsGroupFilter, hk]
    exact hc
  | securityRealm | user | plugInProperties | ldapConnection | connectionProperties => exact ⟨hk, hc⟩
  | _ =>
    simp only [AcceptsChild, IsManagementPart, IsRealmPart, IsServerIdentity, IsAuthenticationSource,
      IsAuthorizationSource, IsDirectorySearch, hk]
    exact hc

/-! ### What becomes of an element -/

/-- The resources that a child becomes, next to each other. -/
def resourcesOf : Role → Element → List Resource
  | management => managementPart
  | securityRealms => fun c => [c.securityRealm]
  | securityRealm => realmPart
  | plugIns => fun c => [c.plugIn]
  | serverIdentities => fun c => [c.serverIdentity]
  | kerberosIdentity => fun c => [c.keytab]
  | authentication => fun c => [c.authenticationSource]
  | users => fun c => [Element.user c]
  | plugInSource _ => fun c => c.children.map (property false)
  | properties valueRequired => fun c => [c.property valueRequired]
  | authorization => fun c => [c.authorizationSource]
  | ldapAuthorization => fun c => [c.directorySearch]
  | ldapAuthentication | usernameToDn | groupSearch =>
    fun c => if c.kind == .cache then [c.cache] else []
  | outboundConnections => fun c => [Element.ldapConnection c]
  | ldapConnection => fun c => c.children.map (property true)
  | ssl | user | groupToPrincipal => fun _ => []

/-- The parameters that a child adds to the resource it belongs to. -/
def entriesOf : Role → Element → List (String × Value)
  | securityRealm => realmParameter
  | ssl => sslPart
  | user => fun c => [("password",
      if isExpression c.trimmedText then .expression c.trimmedText else .string c.trimmedText)]
  | ldapAuthentication => fun c => if c.kind != .cache then
      (Construct.authenticationFilter (c.kind == .advancedFilter)).entries c else []
  | usernameToDn => fun c => if c.kind != .cache then userFilter c else []
  | groupSearch => fun c => if c.kind != .cache then groupFilter c else []
  | groupToPrincipal => Construct.membershipFilter.entries
  | _ => fun _ => []

/-- The place of the resource that the element becomes, if it becomes one of its own. -/
def place? : Role → Element → Option Segment
  | securityRealm => fun e => some ⟨"security-realm", e.nameBy .name⟩
  | ssl => fun _ => some ⟨"server-identity", "ssl"⟩
  | kerberosIdentity => fun _ => some ⟨"server-identity", "kerberos"⟩
  | users => fun _ => some ⟨"authentication", "users"⟩
  | user => fun e => some ⟨"user", e.nameBy .username⟩
  | plugInSource true => fun _ => some ⟨"authentication", "plug-in"⟩
  | plugInSource false => fun _ => some ⟨"authorization", "plug-in"⟩
  | ldapAuthentication => fun _ => some ⟨"authentication", "ldap"⟩
  | ldapAuthorization => fun _ => some ⟨"authorization", "ldap"⟩
  | usernameToDn => fun e => some ⟨"username-to-dn", e.filterKind.localName⟩
  | groupSearch => fun e => some ⟨"group-search", e.filterKind.localName⟩
  | ldapConnection => fun e => some ⟨"ldap-connection", e.nameBy .name⟩
  | management | securityRealms | plugIns | serverIdentities | authentication | properties _
  | authorization | groupToPrincipal | outboundConnections => fun _ => none

/-- What becomes of a child depends on its tag and on the children inside. -/
theorem resourcesOf_congr (htag : c' = { c with content := c'.content })
    (hc : c'.children = c.children) : r.resourcesOf c' = r.resourcesOf c := by
  generalize c'.content = content at htag
  subst htag
  cases r with
  | management =>
    simp only [resourcesOf, managementPart, kind_withContent, hc]
    rfl
  | securityRealm => simp only [resourcesOf, realmPart, kind_withContent, hc]
  | _ =>
    simp only [resourcesOf, Element.securityRealm, serverIdentity, Element.ssl,
      Element.kerberosIdentity, authenticationSource, Element.ldapAuthentication, Element.user,
      authorizationSource, Element.ldapAuthorization, directorySearch, Element.usernameToDn,
      Element.groupSearch, Element.ldapConnection, propertiesInside, filters, filterKind, caches,
      kind_withContent, hc]
    try rfl

/-- What a child adds depends on them too, unless it is a password. -/
theorem entriesOf_congr (hr : r ≠ user) (htag : c' = { c with content := c'.content })
    (hc : c'.children = c.children) : r.entriesOf c' = r.entriesOf c := by
  generalize c'.content = content at htag
  subst htag
  cases r with
  | user => exact absurd rfl hr
  | groupSearch =>
    simp only [entriesOf, groupFilter, kind_withContent, hc]
    rfl
  | _ => rfl

/-- The parameters that come from the start tag, and those that the children add. -/
def parameters (r : Role) (e : Element) : Parameters :=
  .ofList ((r.construct?.map (·.entries e)).getD [] ++ e.children.flatMap r.entriesOf)

/-- The resources that an element becomes: those of its children, below its own if it has one. -/
def resources (r : Role) (e : Element) : List Resource :=
  match r.place? e with
  | none => e.children.flatMap r.resourcesOf
  | some place => [⟨place, r.parameters e, e.children.flatMap r.resourcesOf⟩]

theorem flatMap_filter (p : α → Bool) (f : α → List β) (xs : List α) :
    (xs.filter p).flatMap f = xs.flatMap fun x => if p x then f x else [] := by
  induction xs with
  | nil => rfl
  | cons x xs ih =>
    by_cases hp : p x
    · simp [hp, ih]
    · simp [hp, ih]

theorem caches_eq (e : Element) :
    e.caches = e.children.flatMap fun c => if c.kind == .cache then [c.cache] else [] := by
  rw [caches, List.map_eq_flatMap, flatMap_filter]

theorem entries_only (attr : AttributeName) (e : Element) : (Construct.only attr).entries e = [] := by
  apply List.flatMap_eq_nil_iff.2
  intro a _
  rw [Construct.entriesOf]
  exact ite_self _

/-- What becomes of a child is told by its role. -/
theorem Contains.resourcesOf_eq (h : Contains r c.kind r') (hc : r'.Is grammar c) :
    r.resourcesOf c = r'.resources c := by
  have hnone : c.children.flatMap (fun _ => ([] : List (String × Value))) = [] :=
    List.flatMap_eq_nil_iff.2 fun _ _ => rfl
  have hempty : (.ofList [] : Parameters) = .empty := rfl
  generalize hk : c.kind = k at h
  cases h with
  | user =>
    obtain ⟨p, hp, _⟩ := IsTagged.inside hc
    simp only [resourcesOf, Element.user, resources, place?, parameters, construct?, entriesOf, hp]
    rw [Option.map_some, Option.getD_some, Construct.user, entries_only]
    rfl
  | securityRealm =>
    simp only [resourcesOf, Element.securityRealm, resources, place?, parameters, construct?]
    rw [Option.map_some, Option.getD_some, Construct.securityRealm, entries_only, List.nil_append]
    rfl
  | authorization | groupToPrincipal | securityRealms | plugIns | serverIdentities |
      authentication | outboundConnections | plugInProperties | connectionProperties =>
    simp [resourcesOf, resources, place?, managementPart, realmPart, hk, List.map_eq_flatMap]
  | kerberosIdentity | users | plugInAuthentication | plugInAuthorization =>
    simp [resourcesOf, resources, place?, parameters, construct?, entriesOf, serverIdentity,
      authenticationSource, authorizationSource, hk, List.map_eq_flatMap, Element.kerberosIdentity,
      Construct.parametersOf, propertiesInside, hnone, hempty]
  | _ =>
    simp [resourcesOf, resources, place?, parameters, construct?, entriesOf, hk, List.map_eq_flatMap,
      serverIdentity, authenticationSource, authorizationSource, directorySearch, Resource.leaf,
      Construct.parametersOf, Element.ssl, Element.ldapConnection, propertiesInside,
      Element.ldapAuthentication, Element.ldapAuthorization, Element.usernameToDn, Element.groupSearch,
      filters, flatMap_filter, caches_eq, hnone]

end Role

end ManagementScript.Element
