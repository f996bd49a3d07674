import ManagementScript.Proofs.Management.ResourceKind
import ManagementScript.Proofs.Management.Semantics

/-!
The commands of a management element have the parameters of their resources: whatever several
elements add to one resource, its kind allows it, and what its kind requires is there.
-/

namespace ManagementScript

open Resource (Typed AllTyped allTyped_iff)

namespace Signature

/-- The parameters of a construct are among those of the signature. -/
def Covers (g : Signature) (c : Construct) : Prop :=
  ∀ d ∈ c.parameters, d.2 ∈ g.parameters ∧ d.2.acceptsExpression = true

instance (g : Signature) (c : Construct) : Decidable (g.Covers c) :=
  inferInstanceAs (Decidable (∀ d ∈ c.parameters, _))

/-- The attributes of a construct give all that the signature asks for. -/
structure Suits (g : Signature) (c : Construct) : Prop where
  covers : g.Covers c
  required : ∀ p ∈ g.required, p ∈ c.guaranteed
  alternatives : g.alternatives = []
  companions : g.companions = []

instance (g : Signature) (c : Construct) : Decidable (g.Suits c) :=
  decidable_of_iff (g.Covers c ∧ (∀ p ∈ g.required, p ∈ c.guaranteed) ∧ g.alternatives = [] ∧
      g.companions = [])
    ⟨fun h => ⟨h.1, h.2.1, h.2.2.1, h.2.2.2⟩,
      fun h => ⟨h.covers, h.required, h.alternatives, h.companions⟩⟩

variable {g : Signature} {c : Construct} {e : Element}

theorem declares_entries (hg : g.Covers c) (h : c.Accepts e) : g.Declares (c.entries e) := by
  intro x hx
  obtain ⟨d, hd, hp, hv⟩ := Construct.admits_of_mem_entries h (fun d hd => (hg d hd).2) hx
  exact ⟨d.2, (hg d hd).1, hp, hv⟩

theorem Declares.append (h : g.Declares xs) (h' : g.Declares ys) : g.Declares (xs ++ ys) := by
  intro x hx
  cases List.mem_append.1 hx with
  | inl hx => exact h x hx
  | inr hx => exact h' x hx

theorem declares_flatMap {f : α → List (String × Value)} {ys : List α}
    (h : ∀ y ∈ ys, g.Declares (f y)) :
    g.Declares (ys.flatMap f) := by
  intro x hx
  obtain ⟨y, hy, hx⟩ := List.mem_flatMap.1 hx
  exact h y hy x hx

theorem declares_nil : g.Declares [] := List.forall_mem_nil _

/-- Parameters that do not depend on each other are admitted where none is missing. -/
theorem admits_ofList (hd : g.Declares pairs) (hr : ∀ p ∈ g.required, p ∈ pairs.map Prod.fst)
    (ha : g.alternatives = []) (hc : g.companions = []) : g.Admits (.ofList pairs) where
  declared x hx := hd x (Dictionary.mem_of_mem_ofList hx)
  required p hp := Dictionary.contains_ofList.2 (hr p hp)
  alternative h := absurd ha h
  companion x hx := by simp [hc] at hx

theorem admits_parametersOf (hg : g.Suits c) (h : c.Accepts e) : g.Admits (c.parametersOf e) :=
  admits_ofList (declares_entries hg.covers h)
    (fun p hp => Construct.mem_entries_of_guaranteed h (hg.required p hp)) hg.alternatives
    hg.companions

/-- The attributes of an owner together with what its children add. -/
theorem admits_entries_append (hg : g.Covers c) (h : c.Accepts e) (hd : g.Declares pairs)
    (hr : ∀ p ∈ g.required, p ∈ c.guaranteed ∨ p ∈ pairs.map Prod.fst)
    (ha : g.alternatives = []) (hc : g.companions = []) :
    g.Admits (.ofList (c.entries e ++ pairs)) := by
  apply admits_ofList ((declares_entries hg h).append hd) _ ha hc
  intro p hp
  rw [List.map_append, List.mem_append]
  cases hr p hp with
  | inl hp => exact .inl (Construct.mem_entries_of_guaranteed h hp)
  | inr hp => exact .inr hp

end Signature

namespace Element

variable {grammar : GrammarNamespace} {e : Element} {kind : ResourceKind}

theorem allTyped_map {f : α → Resource} {xs : List α} (h : ∀ x ∈ xs, (f x).Typed kind) :
    AllTyped kind (xs.map f) := by
  rw [allTyped_iff, List.forall_mem_map]
  exact h

theorem allTyped_flatMap {f : α → List Resource} {xs : List α}
    (h : ∀ x ∈ xs, AllTyped kind (f x)) :
    AllTyped kind (xs.flatMap f) := by
  rw [allTyped_iff]
  intro r hr
  obtain ⟨x, hx, hr⟩ := List.mem_flatMap.1 hr
  exact allTyped_iff.1 (h x hx) r hr

theorem typed_leaf {c : Construct} {k : ResourceKind} (hk : kind.child? ⟨key, value⟩ = some k)
    (hg : k.signature.Suits c) (h : c.Accepts e) :
    (Resource.leaf key value (c.parametersOf e)).Typed kind :=
  ⟨k, hk, Signature.admits_parametersOf hg h, trivial⟩

/-! ### Properties and connections -/

theorem typed_propertiesInside {valueRequired : Bool} {k : ResourceKind}
    (hk : ∀ name, kind.child? ⟨"property", name⟩ = some k)
    (hg : k.signature.Suits (.property valueRequired)) (h : e.HoldsProperties grammar valueRequired) :
    AllTyped kind (e.propertiesInside valueRequired) := by
  apply allTyped_flatMap
  intro c hc
  apply allTyped_map
  intro p hp
  have hp := (h.accepted c hc).2.inside.accepted p hp
  exact typed_leaf (hk _) hg hp.2.tag

theorem typed_ldapConnection (h : e.IsLdapConnection grammar) :
    e.ldapConnection.Typed .management :=
  ⟨.ldapConnection, rfl, Signature.admits_parametersOf (by decide) h.tag,
    typed_propertiesInside (fun _ => rfl) (by decide) h.inside⟩

/-! ### Server identities -/

theorem sslPart_of_isSslPart {c : Element} (h : c.IsSslPart) :
    Construct.engine.Accepts c ∧ c.sslPart = Construct.engine.entries c ∨
      (Construct.keyMaterial true).Accepts c ∧ c.sslPart = (Construct.keyMaterial true).entries c := by
  simp only [IsSslPart] at h
  split at h
  · next hk => exact .inl ⟨h.tag, by simp only [sslPart, hk]⟩
  · next hk => exact .inr ⟨h.tag, by simp only [sslPart, hk]⟩
  · cases h

/-- What an encrypted connection has from its store of keys comes with a password. -/
theorem typed_ssl (h : e.IsSsl grammar) : e.ssl.Typed .securityRealm := by
  have hparts (c : Element) (hc : c ∈ e.children) := sslPart_of_isSslPart (h.inside.accepted c hc)
  have hother : ∀ x ∈ ResourceKind.ssl.signature.companions,
      x.1 ∉ Construct.ssl.names ∧ x.1 ∉ Construct.engine.names ∧ x.2 = "keystore-password" := by
    decide
  have hdeclared : ResourceKind.ssl.signature.Declares
      (Construct.ssl.entries e ++ e.children.flatMap sslPart) := by
    apply (Signature.declares_entries (by decide) h.tag).append
    apply Signature.declares_flatMap
    intro c hc
    obtain ⟨ha, hp⟩ | ⟨ha, hp⟩ := hparts c hc
    · rw [hp]
      exact Signature.declares_entries (by decide) ha
    · rw [hp]
      exact Signature.declares_entries (by decide) ha
  refine ⟨.ssl, rfl, ⟨fun x hx => hdeclared x (Dictionary.mem_of_mem_ofList hx), ?_, ?_, ?_⟩, trivial⟩
  · exact List.forall_mem_nil _
  · exact fun hne => absurd rfl hne
  · intro x hx hmem
    obtain ⟨hssl, hengine, hpassword⟩ := hother x hx
    rw [hpassword]
    rw [Dictionary.contains_ofList, List.map_append, List.mem_append, List.map_flatMap] at hmem ⊢
    cases hmem with
    | inl hmem => exact absurd (Construct.mem_names_of_entries hmem) hssl
    | inr hmem =>
      obtain ⟨c, hc, hmem⟩ := List.mem_flatMap.1 hmem
      obtain ⟨_, hp⟩ | ⟨ha, hp⟩ := hparts c hc
      · rw [hp] at hmem
        exact absurd (Construct.mem_names_of_entries hmem) hengine
      · refine .inr (List.mem_flatMap.2 ⟨c, hc, ?_⟩)
        rw [hp]
        exact Construct.mem_entries_of_guaranteed ha (by decide)

theorem typed_kerberosIdentity (h : e.IsKerberosIdentity grammar) :
    e.kerberosIdentity.Typed .securityRealm := by
  refine ⟨.kerberosIdentity, rfl,
    Signature.admits_ofList Signature.declares_nil (by decide) rfl rfl, allTyped_map ?_⟩
  intro c hc
  exact typed_leaf (k := .keytab) rfl (by decide) (h.inside.accepted c hc).2.tag

theorem typed_serverIdentity (h : e.IsServerIdentity grammar) :
    e.serverIdentity.Typed .securityRealm := by
  obtain ⟨hk, h⟩ | ⟨hk, h⟩ | ⟨hk, h⟩ := kind_of_isServerIdentity h
  · simp only [serverIdentity, hk]
    exact typed_leaf (k := .secret) rfl (by decide) h.tag
  · simp only [serverIdentity, hk]
    exact typed_ssl h
  · simp only [serverIdentity, hk]
    exact typed_kerberosIdentity h

/-! ### Directories -/

theorem typed_caches (h : e.HoldsFilter grammar alternatives A) (hn : .cache ∉ alternatives)
    (hk : ∀ type, kind.child? ⟨"cache", type⟩ = some .cache) : AllTyped kind e.caches := by
  apply allTyped_map
  intro c hc
  obtain ⟨hmem, hcache⟩ := List.mem_filter.1 hc
  have hcache : c.kind = .cache := by simpa using hcache
  cases h.children.accepted c hmem with
  | inl h => exact typed_leaf (hk _) (by decide) h.2.tag
  | inr h => exact absurd (hcache ▸ h.1) hn

/-- The parameter that the filter of an authentication becomes. -/
def filterParameter (advanced : Bool) : String :=
  if advanced then "advanced-filter" else "username-attribute"

theorem typed_ldapAuthentication (h : e.IsLdapAuthentication grammar) :
    e.ldapAuthentication.Typed .securityRealm := by
  obtain ⟨c, hc, _, hleaf⟩ := exists_filters_eq h.inside (by decide)
  let advanced := c.kind == .advancedFilter
  let filter := Construct.authenticationFilter advanced
  have hfilter : filter.Accepts c := hleaf.tag
  have hpairs : (e.filters.flatMap fun c =>
      (Construct.authenticationFilter (c.kind == .advancedFilter)).entries c) = filter.entries c := by
    rw [hc, List.flatMap_singleton]
  have hall : ∀ b, ResourceKind.ldapAuthentication.signature.Covers (.authenticationFilter b) ∧
      (Construct.authenticationFilter b).guaranteed = [filterParameter b] ∧
      (Construct.authenticationFilter b).names = [filterParameter b] := by decide
  obtain ⟨hcovers, hguaranteed, hnames⟩ := hall advanced
  have hother : ∀ q ∈ ["advanced-filter", "username-attribute"],
      q ∉ Construct.ldapAuthentication.names := by decide
  refine ⟨.ldapAuthentication, rfl, ⟨fun x hx => ?_, fun p hp => ?_, fun _ => ?_, ?_⟩,
    typed_caches h.inside (by decide) fun _ => rfl⟩
  · rw [hpairs] at hx
    have hdeclared := (Signature.declares_entries (by decide) h.tag).append
      (Signature.declares_entries hcovers hfilter)
    exact hdeclared x (Dictionary.mem_of_mem_ofList hx)
  · rw [Dictionary.contains_ofList, List.map_append, List.mem_append]
    have hrequired : ∀ p ∈ ["connection", "base-dn"], p ∈ Construct.ldapAuthentication.guaranteed := by
      decide
    exact .inl (Construct.mem_entries_of_guaranteed h.tag (hrequired p hp))
  · refine ⟨filterParameter advanced, ?_, fun q hq => ?_⟩
    · cases advanced <;> decide
    · rw [Dictionary.contains_ofList, List.map_append, List.mem_append, hpairs]
      apply Iff.intro
      · intro hmem
        cases hmem with
        | inl hmem => exact absurd (Construct.mem_names_of_entries hmem) (hother q hq)
        | inr hmem =>
          have hname := Construct.mem_names_of_entries hmem
          rw [hnames] at hname
          exact List.mem_singleton.1 hname
      · intro he
        apply Or.inr
        apply Construct.mem_entries_of_guaranteed hfilter
        rw [hguaranteed, he]
        exact List.mem_singleton_self _
  · exact List.forall_mem_nil _

/-- A search for a user, whose kind is told by its filter. -/
theorem typed_usernameToDn (h : e.IsUsernameToDn grammar) :
    e.usernameToDn.Typed .ldapAuthorization := by
  obtain ⟨c, hc, hk, hfilter⟩ := exists_filters_eq h.inside (by decide)
  have hkind : e.filterKind = c.kind := by simp [filterKind, hc]
  have hpairs : e.filters.flatMap userFilter = c.userFilter := by rw [hc, List.flatMap_singleton]
  rw [usernameToDn, hkind, hpairs]
  simp only [userFilters, List.mem_cons, List.not_mem_nil, or_false] at hk
  obtain hk | hk | hk := hk
  · simp only [userFilter, hk]
    exact ⟨.userByDn, rfl,
      Signature.admits_entries_append (by decide) h.tag Signature.declares_nil
        (List.forall_mem_nil _) rfl rfl,
      typed_caches h.inside (by decide) fun _ => rfl⟩
  · simp only [IsUserFilter, hk] at hfilter
    have hsearch : (Construct.userSearch false).Accepts c := hfilter.tag
    simp only [userFilter, hk]
    refine ⟨.userByName, rfl,
      Signature.admits_entries_append (by decide) h.tag
        (Signature.declares_entries (by decide) hsearch) (fun p hp => .inr ?_) rfl rfl,
      typed_caches h.inside (by decide) fun _ => rfl⟩
    exact Construct.mem_entries_of_guaranteed hsearch hp
  · simp only [IsUserFilter, hk] at hfilter
    have hsearch : (Construct.userSearch true).Accepts c := hfilter.tag
    simp only [userFilter, hk]
    refine ⟨.userByFilter, rfl,
      Signature.admits_entries_append (by decide) h.tag
        (Signature.declares_entries (by decide) hsearch) (fun p hp => .inr ?_) rfl rfl,
      typed_caches h.inside (by decide) fun _ => rfl⟩
    exact Construct.mem_entries_of_guaranteed hsearch hp

theorem typed_groupSearch (h : e.IsGroupSearch grammar) :
    e.groupSearch.Typed .ldapAuthorization := by
  obtain ⟨c, hc, hk, hfilter⟩ := exists_filters_eq h.inside (by decide)
  have hkind : e.filterKind = c.kind := by simp [filterKind, hc]
  have hpairs : e.filters.flatMap groupFilter = c.groupFilter := by rw [hc, List.flatMap_singleton]
  rw [groupSearch, hkind, hpairs]
  simp only [groupFilters, List.mem_cons, List.not_mem_nil, or_false] at hk
  obtain hk | hk := hk
  · simp only [IsGroupFilter, hk] at hfilter
    simp only [groupFilter, hk]
    have hmembers : ResourceKind.groupsOfMember.signature.Declares
        (c.children.flatMap Construct.membershipFilter.entries) :=
      Signature.declares_flatMap fun d hd =>
        Signature.declares_entries (by decide) (hfilter.inside.accepted d hd).2.tag
    refine ⟨.groupsOfMember, rfl,
      Signature.admits_entries_append (by decide) h.tag
        ((Signature.declares_entries (by decide) hfilter.tag).append hmembers)
        (fun p hp => .inr ?_) rfl rfl,
      typed_caches h.inside (by decide) fun _ => rfl⟩
    rw [List.map_append, List.mem_append]
    exact .inl (Construct.mem_entries_of_guaranteed hfilter.tag hp)
  · simp only [IsGroupFilter, hk] at hfilter
    simp only [groupFilter, hk]
    exact ⟨.groupsOfPrincipal, rfl,
      Signature.admits_entries_append (by decide) h.tag
        (Signature.declares_entries (by decide) hfilter.tag) (List.forall_mem_nil _) rfl rfl,
      typed_caches h.inside (by decide) fun _ => rfl⟩

theorem typed_ldapAuthorization (h : e.IsLdapAuthorization grammar) :
    e.ldapAuthorization.Typed .securityRealm := by
  refine ⟨.ldapAuthorization, rfl, Signature.admits_parametersOf (by decide) h.tag,
    allTyped_map ?_⟩
  intro c hc
  obtain ⟨hk, hc⟩ | ⟨hk, hc⟩ := kind_of_isDirectorySearch (h.inside.accepted c hc)
  · simp only [directorySearch, hk]
    exact typed_usernameToDn hc
  · simp only [directorySearch, hk]
    exact typed_groupSearch hc

/-! ### Authentication and authorization -/

theorem typed_plugInProperties {withMechanism : Bool} (h : e.IsPlugInSource grammar withMechanism)
    (hk : ∀ name, kind.child? ⟨"property", name⟩ = some .plugInProperty) :
    AllTyped kind (e.propertiesInside false) :=
  typed_propertiesInside hk (by decide) h.inside

theorem typed_user (e : Element) : e.user.Typed .users := by
  refine ⟨.user, rfl, Signature.admits_ofList ?_ ?_ rfl rfl, trivial⟩
  · intro x hx
    rw [List.mem_singleton.1 hx]
    refine ⟨.string "password", List.mem_singleton_self _, rfl, ?_⟩
    split
    · next he => exact .inr ⟨nofun, _, rfl, he⟩
    · next he => exact .inl (Bool.eq_false_iff.2 he)
  · intro p hp
    rw [List.mem_singleton.1 hp]
    exact List.mem_singleton_self _

theorem typed_authenticationSource (h : e.IsAuthenticationSource grammar) :
    e.authenticationSource.Typed .securityRealm := by
  simp only [IsAuthenticationSource] at h
  split at h
  · next hk =>
    simp only [authenticationSource, hk]
    exact typed_leaf (k := .truststore) rfl (by decide) h.tag
  · next hk =>
    simp only [authenticationSource, hk]
    exact typed_leaf (k := .localMechanism) rfl (by decide) h.tag
  · next hk =>
    simp only [authenticationSource, hk]
    exact typed_leaf (k := .kerberos) rfl (by decide) h.tag
  · next hk =>
    simp only [authenticationSource, hk]
    exact typed_leaf (k := .jaas) rfl (by decide) h.tag
  · next hk =>
    simp only [authenticationSource, hk]
    exact typed_ldapAuthentication h
  · next hk =>
    simp only [authenticationSource, hk]
    exact typed_leaf (k := .passwordFile) rfl (by decide) h.tag
  · next hk =>
    simp only [authenticationSource, hk]
    refine ⟨.users, rfl, Signature.admits_ofList Signature.declares_nil (by decide) rfl rfl,
      allTyped_map ?_⟩
    intro c _
    exact typed_user c
  · next hk =>
    simp only [authenticationSource, hk]
    exact ⟨.authenticationPlugIn, rfl, Signature.admits_parametersOf (by decide) h.tag,
      typed_plugInProperties h fun _ => rfl⟩
  · cases h

theorem typed_authorizationSource (h : e.IsAuthorizationSource grammar) :
    e.authorizationSource.Typed .securityRealm := by
  obtain ⟨hk, h⟩ | ⟨hk, h⟩ | ⟨hk, h⟩ := kind_of_isAuthorizationSource h
  · simp only [authorizationSource, hk]
    exact typed_leaf (k := .groupFile) rfl (by decide) h.tag
  · simp only [authorizationSource, hk]
    exact ⟨.authorizationPlugIn, rfl, Signature.admits_parametersOf (by decide) h.tag,
      typed_plugInProperties h fun _ => rfl⟩
  · simp only [authorizationSource, hk]
    exact typed_ldapAuthorization h

/-! ### Security realms -/

theorem typed_realmPart (h : e.IsRealmPart grammar) : AllTyped .securityRealm e.realmPart := by
  obtain ⟨hk, h⟩ | ⟨hk, h⟩ | ⟨hk, h⟩ | ⟨hk, h⟩ := kind_of_isRealmPart h
  · simp only [realmPart, hk]
    apply allTyped_map
    intro c _
    exact ⟨.plugInModule, rfl,
      Signature.admits_ofList Signature.declares_nil (by decide) rfl rfl, trivial⟩
  · simp only [realmPart, hk]
    apply allTyped_map
    intro c hc
    exact typed_serverIdentity (h.inside.accepted c hc)
  · simp only [realmPart, hk]
    apply allTyped_map
    intro c hc
    exact typed_authenticationSource (h.inside.accepted c hc)
  · simp only [realmPart, hk]
    apply allTyped_map
    intro c hc
    exact typed_authorizationSource (h.inside.accepted c hc)

theorem declares_realmParameter (h : e.IsRealmPart grammar) :
    ResourceKind.securityRealm.signature.Declares e.realmParameter := by
  obtain ⟨hk, _⟩ | ⟨hk, _⟩ | ⟨hk, _⟩ | ⟨hk, h⟩ := kind_of_isRealmPart h
  · simp only [realmParameter, hk]
    exact Signature.declares_nil
  · simp only [realmParameter, hk]
    exact Signature.declares_nil
  · simp only [realmParameter, hk]
    exact Signature.declares_nil
  · simp only [realmParameter, hk]
    exact Signature.declares_entries (by decide) h.tag

theorem typed_securityRealm (h : e.IsSecurityRealm grammar) :
    e.securityRealm.Typed .management := by
  have hdeclared : ResourceKind.securityRealm.signature.Declares
      (e.children.flatMap realmParameter) :=
    Signature.declares_flatMap fun c hc => declares_realmParameter (h.inside.accepted c hc)
  exact ⟨.securityRealm, rfl, Signature.admits_ofList hdeclared (List.forall_mem_nil _) rfl rfl,
    allTyped_flatMap fun c hc => typed_realmPart (h.inside.accepted c hc)⟩

/-! ### The whole element -/

theorem typed_resources (h : e.IsManagement grammar) : AllTyped .management e.resources := by
  apply allTyped_flatMap
  intro c hc
  obtain ⟨hk, hc⟩ | ⟨hk, hc⟩ | ⟨hk, hc⟩ := kind_of_isManagementPart (h.inside.accepted c hc)
  · simp only [managementPart, hk]
    exact allTyped_map fun r hr => typed_securityRealm (hc.inside.accepted r hr).2
  · simp only [managementPart, hk]
    exact allTyped_map fun r hr => typed_ldapConnection (hc.inside.accepted r hr).2
  · simp only [managementPart, hk]
    exact ⟨typed_leaf (k := .configurationChanges) rfl (by decide) hc.tag, trivial⟩

end Element

namespace Compilation

/-- Every command that is added is that of a kind of resource which its address tells, and has the
parameters of this kind. -/
theorem management_adds_typed {grammar : GrammarNamespace} {base : Address} {native : Bool}
    {s s' : CompilationState Unit}
    (h : management grammar .declining base native s = (.ok (), s')) :
    ∃ commands, s'.script.toList = s.script.toList ++ commands ∧
      ∀ c ∈ commands, ∃ path kind,
        c.address.segments = (base.append "core-service" "management").segments ++ path ∧
          ResourceKind.management.below? path = some kind ∧
          kind.signature.Admits c.parameters := by
  obtain ⟨e, d, _, he, _, _, hs⟩ := management_eq_ok_iff.1 h
  refine ⟨e.commands base, hs.script.toList, ?_⟩
  intro c hc
  exact Resource.typed_of_mem_commandsOfAll _ (Element.typed_resources he) hc

theorem management_adds_typed_realm : ∃ s' commands,
    management .domain42 .declining .root false (RealmSample.state .empty) = (.ok (), s') ∧
      s'.script.toList = commands ∧
      ∀ c ∈ commands, ∃ path kind,
        c.address.segments = ⟨"core-service", "management"⟩ :: path ∧
          ResourceKind.management.below? path = some kind ∧
          kind.signature.Admits c.parameters := by
  obtain ⟨s', hs⟩ := RealmSample.compiles
  obtain ⟨commands, hc, ht⟩ := management_adds_typed hs
  exact ⟨s', commands, hs, hc, ht⟩

end Compilation

end ManagementScript
