import ManagementScript.Proofs.Management.Order
import ManagementScript.Proofs.Management.Semantics

/-!
The commands of a management element as a tree. What the grammar demands of elements that stand side
by side keeps the resources apart that have others below them.
-/

namespace ManagementScript.Element

open Resource (Distinct)

variable {shared : Segment → Prop}

theorem localName_injective {a b : ElementName} (h : a.localName = b.localName) : a = b := by
  rw [← ElementName.ofString_localName a, h, ElementName.ofString_localName]

theorem distinct_nil : Distinct shared [] := .intro .nil (List.forall_mem_nil _)

theorem distinct_singleton {r : Resource} (h : Distinct shared r.children) : Distinct shared [r] :=
  .intro (List.pairwise_singleton ..) (List.forall_mem_singleton.2 h)

/-- Resources that are made of accepted children, in places of their own or in shared ones. -/
theorem Holds.distinct {e : Element} {f : Element → Resource}
    (h : e.Holds grammar R A)
    (here : ∀ c d, A c → A d → R c d → (f c).segment = (f d).segment →
      (f c).children = [] ∧ shared (f c).segment)
    (below : ∀ c ∈ e.children, A c → Distinct shared (f c).children) :
    Distinct shared (e.children.map f) := by
  apply Distinct.intro
  · apply List.pairwise_map.2
    apply h.compatible.imp_of_mem
    intro c d hc hd hcd
    exact here c d (h.accepted c hc) (h.accepted d hd) hcd
  · intro r hr
    obtain ⟨c, hc, rfl⟩ := List.mem_map.1 hr
    exact below c hc (h.accepted c hc)

/-- Resources under the names of children, which differ. -/
theorem HoldsNamed.distinct {e : Element} {kind : ElementName} {f : Element → Resource}
    (h : e.HoldsNamed grammar kind attr A)
    (named : ∀ c, (f c).segment.value = c.nameBy attr)
    (below : ∀ c ∈ e.children, A c → Distinct shared (f c).children) :
    Distinct shared (e.children.map f) := by
  have hin : e.Holds grammar (Unlike attr) fun c => c.kind = kind ∧ A c := h
  apply hin.distinct
  · intro c d _ _ hne hs
    rw [Unlike, ← named, ← named, hs] at hne
    exact absurd rfl hne
  · intro c hc ha
    exact below c hc ha.2

/-- Resources that are made of parts, which have a key for each kind of part. -/
theorem HoldsApart.distinct {e : Element} {f : Element → List Resource} {k : ElementName → String}
    {l : List ElementName} (h : e.HoldsApart grammar group A)
    (distinct : ∀ x ∈ l, ∀ y ∈ l, x ≠ y → k x ≠ k y)
    (kind : ∀ c, A c → c.kind ∈ l) (keyed : ∀ c, A c → ∀ r ∈ f c, r.segment.key = k c.kind)
    (inside : ∀ c ∈ e.children, A c → Distinct shared (f c)) :
    Distinct shared (e.children.flatMap f) := by
  apply Distinct.intro
  · apply List.pairwise_flatMap.2
    apply And.intro
    · intro c hc
      exact (inside c hc (h.accepted c hc)).here
    · apply h.compatible.imp_of_mem
      intro c d hc hd hcd r hr r' hr' hs
      have hc := h.accepted c hc
      have hd := h.accepted d hd
      apply absurd _ (distinct _ (kind c hc) _ (kind d hd) hcd.1)
      rw [← keyed c hc r hr, ← keyed d hd r' hr', hs]
  · intro r hr
    obtain ⟨c, hc, hr⟩ := List.mem_flatMap.1 hr
    exact (inside c hc (h.accepted c hc)).inside hr

theorem distinct_properties (h : IsProperties grammar valueRequired e) :
    Distinct shared (e.children.map (property valueRequired)) := by
  have hin : e.HoldsNamed grammar .property .name (IsLeaf (.property valueRequired)) := h.inside
  exact hin.distinct (fun _ => rfl) fun _ _ _ => distinct_nil

/-- There is at most one list of properties. -/
theorem distinct_propertiesInside (h : HoldsProperties grammar valueRequired e) :
    Distinct shared (e.propertiesInside valueRequired) := by
  have hin : e.HoldsApart grammar [] fun c =>
    c.kind = .properties ∧ c.IsProperties grammar valueRequired := h
  apply hin.distinct (k := fun _ => "property") (l := [.properties])
  · decide
  · intro c hc
    exact List.mem_singleton.2 hc.1
  · intro c _ r hr
    obtain ⟨p, _, rfl⟩ := List.mem_map.1 hr
    rfl
  · intro c _ hc
    exact distinct_properties hc.2

/-- There is at most one cache. -/
theorem caches_pairwise (h : HoldsFilter grammar alternatives accepts e)
    (hcache : .cache ∉ alternatives) : e.caches.Pairwise fun _ _ => False := by
  apply List.pairwise_map.2
  apply (h.children.compatible.filter _).imp_of_mem
  intro c d _ hd hcd
  have hk : d.kind = .cache := by simpa using (List.mem_filter.1 hd).2
  exact hcache (hk ▸ hcd.2)

theorem distinct_caches (h : HoldsFilter grammar alternatives accepts e)
    (hcache : .cache ∉ alternatives) : Distinct shared e.caches := by
  apply Distinct.intro
  · exact (caches_pairwise h hcache).imp False.elim
  · intro r hr
    obtain ⟨c, _, rfl⟩ := List.mem_map.1 hr
    exact distinct_nil

/-! ### Realms -/

/-- Sources of one kind of resource are named by their own kinds. -/
theorem segment_ne_of_apart {c d : Element} (h : Apart group c d) (key : String) :
    Segment.mk key c.kind.localName ≠ ⟨key, d.kind.localName⟩ := by
  intro hs
  exact h.1 (localName_injective (Segment.mk.inj hs).2)

/-- Principals of a server with one name are in a shared place. -/
def SharesKeytabs (shared : Segment → Prop) (e : Element) : Prop :=
  e.children.Pairwise fun c d =>
    c.nameBy .principal = d.nameBy .principal → shared ⟨"keytab", c.nameBy .principal⟩

theorem distinct_keytabs {e : Element} (h : e.SharesKeytabs shared) :
    Distinct shared (e.children.map keytab) := by
  apply Distinct.intro
  · apply List.pairwise_map.2
    apply List.Pairwise.imp _ h
    intro c d hcd hs
    exact ⟨rfl, hcd (Segment.mk.inj hs).2⟩
  · intro r hr
    obtain ⟨c, _, rfl⟩ := List.mem_map.1 hr
    exact distinct_nil

/-- The children of one kind. -/
def ofKind (e : Element) (kind : ElementName) : List Element := e.children.filter (·.kind == kind)

theorem mem_ofKind {e c : Element} {kind : ElementName} : c ∈ e.ofKind kind ↔ c ∈ e.children ∧ c.kind = kind := by
  simp [ofKind]

theorem distinct_serverIdentities (h : IsServerIdentities grammar e)
    (hk : ∀ k ∈ e.ofKind .kerberos, k.SharesKeytabs shared) :
    Distinct shared (e.children.map serverIdentity) := by
  have hin : e.Holds grammar (Apart []) (IsServerIdentity grammar) := h.inside
  apply hin.distinct
  · intro c d hc hd hcd hs
    rw [segment_serverIdentity hc, segment_serverIdentity hd] at hs
    exact absurd hs (segment_ne_of_apart hcd _)
  · intro c hc ha
    obtain ⟨hkind, _⟩ | ⟨hkind, _⟩ | ⟨hkind, _⟩ := kind_of_isServerIdentity ha
    · simp only [serverIdentity, hkind]
      exact distinct_nil
    · simp only [serverIdentity, hkind]
      exact distinct_nil
    · simp only [serverIdentity, hkind]
      exact distinct_keytabs (hk c (mem_ofKind.2 ⟨hc, hkind⟩))

theorem distinct_authentication (h : IsAuthentication grammar e) :
    Distinct shared (e.children.map authenticationSource) := by
  have hin : e.Holds grammar (Apart Compilation.passwordSources) (IsAuthenticationSource grammar) :=
    h.inside
  apply hin.distinct
  · intro c d hc hd hcd hs
    rw [segment_authenticationSource hc, segment_authenticationSource hd] at hs
    exact absurd hs (segment_ne_of_apart hcd _)
  · intro c _ ha
    simp only [IsAuthenticationSource] at ha
    split at ha
    case h_5 hk =>
      simp only [authenticationSource, hk]
      exact distinct_caches ha.inside (by decide)
    case h_7 hk =>
      simp only [authenticationSource, hk]
      have hin : c.HoldsNamed grammar .user .username (IsUser grammar) := ha.inside
      exact hin.distinct (fun _ => rfl) fun _ _ _ => distinct_nil
    case h_8 hk =>
      simp only [authenticationSource, hk]
      exact distinct_propertiesInside ha.inside
    case h_9 => cases ha
    all_goals
      next hk =>
      simp only [authenticationSource, hk]
      exact distinct_nil

theorem distinct_ldapAuthorization (h : IsLdapAuthorization grammar e) :
    Distinct shared (e.children.map directorySearch) := by
  have hin : e.Holds grammar (Apart []) (IsDirectorySearch grammar) := h.inside
  apply hin.distinct
  · intro c d hc hd hcd hs
    rw [segment_directorySearch hc, segment_directorySearch hd] at hs
    exact absurd (localName_injective (Segment.mk.inj hs).1) hcd.1
  · intro c _ hc
    obtain ⟨hk, hc⟩ | ⟨hk, hc⟩ := kind_of_isDirectorySearch hc
    · simp only [directorySearch, hk]
      exact distinct_caches hc.inside (by decide)
    · simp only [directorySearch, hk]
      exact distinct_caches hc.inside (by decide)

theorem distinct_authorization (h : IsAuthorization grammar e) :
    Distinct shared (e.children.map authorizationSource) := by
  have hin : e.Holds grammar (Apart Compilation.groupSources) (IsAuthorizationSource grammar) :=
    h.inside
  apply hin.distinct
  · intro c d hc hd hcd hs
    rw [segment_authorizationSource hc, segment_authorizationSource hd] at hs
    exact absurd hs (segment_ne_of_apart hcd _)
  · intro c _ hc
    obtain ⟨hk, _⟩ | ⟨hk, hc⟩ | ⟨hk, hc⟩ := kind_of_isAuthorizationSource hc
    · simp only [authorizationSource, hk]
      exact distinct_nil
    · simp only [authorizationSource, hk]
      exact distinct_propertiesInside hc.inside
    · simp only [authorizationSource, hk]
      exact distinct_ldapAuthorization hc

/-- The key of the resources of a part of a realm. -/
def realmKey : ElementName → String
  | .plugIns => "plug-in"
  | .serverIdentities => "server-identity"
  | .authentication => "authentication"
  | _ => "authorization"

/-- The kinds of the parts of a realm. -/
def realmParts : List ElementName := [.plugIns, .serverIdentities, .authentication, .authorization]

theorem kind_mem_realmParts (h : IsRealmPart grammar c) : c.kind ∈ realmParts := by
  obtain ⟨hk, _⟩ | ⟨hk, _⟩ | ⟨hk, _⟩ | ⟨hk, _⟩ := kind_of_isRealmPart h
  all_goals simp [hk, realmParts]

theorem realmKey_ne : ∀ a ∈ realmParts, ∀ b ∈ realmParts, a ≠ b → realmKey a ≠ realmKey b := by
  decide

theorem key_of_mem_realmPart (h : IsRealmPart grammar c) (hr : r ∈ c.realmPart) :
    r.segment.key = realmKey c.kind := by
  obtain ⟨hk, _⟩ | ⟨hk, hc⟩ | ⟨hk, hc⟩ | ⟨hk, hc⟩ := kind_of_isRealmPart h
  · simp only [realmPart, hk, List.mem_map] at hr
    obtain ⟨d, _, rfl⟩ := hr
    rw [hk]
    rfl
  · simp only [realmPart, hk, List.mem_map] at hr
    obtain ⟨d, hd, rfl⟩ := hr
    rw [hk, segment_serverIdentity (hc.inside.accepted d hd)]
    rfl
  · simp only [realmPart, hk, List.mem_map] at hr
    obtain ⟨d, hd, rfl⟩ := hr
    rw [hk, segment_authenticationSource (hc.inside.accepted d hd)]
    rfl
  · simp only [realmPart, hk, List.mem_map] at hr
    obtain ⟨d, hd, rfl⟩ := hr
    rw [hk, segment_authorizationSource (hc.inside.accepted d hd)]
    rfl

/-- The Kerberos identities of a realm. -/
def realmKerberos (e : Element) : List Element :=
  (e.ofKind .serverIdentities).flatMap (·.ofKind .kerberos)

theorem distinct_realmPart (h : IsRealmPart grammar c)
    (hkeytabs : c.kind = .serverIdentities → ∀ k ∈ c.ofKind .kerberos, k.SharesKeytabs shared) :
    Distinct shared c.realmPart := by
  obtain ⟨hk, hc⟩ | ⟨hk, hc⟩ | ⟨hk, hc⟩ | ⟨hk, hc⟩ := kind_of_isRealmPart h
  · simp only [realmPart, hk]
    have hin : c.HoldsNamed grammar .plugIn .module (IsLeaf .plugInModule) := hc.inside
    exact hin.distinct (fun _ => rfl) fun _ _ _ => distinct_nil
  · simp only [realmPart, hk]
    exact distinct_serverIdentities hc (hkeytabs hk)
  · simp only [realmPart, hk]
    exact distinct_authentication hc
  · simp only [realmPart, hk]
    exact distinct_authorization hc

theorem distinct_securityRealm (h : IsSecurityRealm grammar e)
    (hk : ∀ k ∈ e.realmKerberos, k.SharesKeytabs shared) :
    Distinct shared e.securityRealm.children := by
  have hin : e.HoldsApart grammar [] (IsRealmPart grammar) := h.inside
  apply HoldsApart.distinct hin realmKey_ne
  · intro c hc
    exact kind_mem_realmParts hc
  · intro c hc r hr
    exact key_of_mem_realmPart hc hr
  · intro c hc ha
    apply distinct_realmPart ha
    intro hkind k hkc
    exact hk k (List.mem_flatMap.2 ⟨c, mem_ofKind.2 ⟨hc, hkind⟩, hkc⟩)

/-! ### The whole element -/

/-- The key of the resources of a part of a management element. -/
def managementKey : ElementName → String
  | .securityRealms => "security-realm"
  | .outboundConnections => "ldap-connection"
  | _ => "service"

theorem key_of_mem_managementPart (h : IsManagementPart grammar c) (hr : r ∈ c.managementPart) :
    r.segment.key = managementKey c.kind := by
  obtain ⟨hk, _⟩ | ⟨hk, _⟩ | ⟨hk, _⟩ := kind_of_isManagementPart h
  · simp only [managementPart, hk, List.mem_map] at hr
    obtain ⟨d, _, rfl⟩ := hr
    rw [hk]
    rfl
  · simp only [managementPart, hk, List.mem_map] at hr
    obtain ⟨d, _, rfl⟩ := hr
    rw [hk]
    rfl
  · simp only [managementPart, hk, List.mem_singleton] at hr
    rw [hk, hr]
    rfl

/-- The Kerberos identities of all realms of a management element. -/
def kerberosIdentities (e : Element) : List Element :=
  (e.ofKind .securityRealms).flatMap fun c => c.children.flatMap realmKerberos

theorem distinct_managementPart (h : IsManagementPart grammar c)
    (hkeytabs : c.kind = .securityRealms →
      ∀ r ∈ c.children, ∀ k ∈ r.realmKerberos, k.SharesKeytabs shared) :
    Distinct shared c.managementPart := by
  obtain ⟨hk, hc⟩ | ⟨hk, hc⟩ | ⟨hk, _⟩ := kind_of_isManagementPart h
  · simp only [managementPart, hk]
    have hin : c.HoldsNamed grammar .securityRealm .name (IsSecurityRealm grammar) := hc.inside
    exact hin.distinct (fun _ => rfl) fun r hr ha => distinct_securityRealm ha (hkeytabs hk r hr)
  · simp only [managementPart, hk]
    have hin : c.HoldsNamed grammar .ldap .name (IsLdapConnection grammar) := hc.inside
    exact hin.distinct (fun _ => rfl) fun _ _ ha => distinct_propertiesInside ha.inside
  · simp only [managementPart, hk]
    exact distinct_singleton distinct_nil

/-- Only principals of one server can share a place. -/
theorem distinct_resources (h : IsManagement grammar e)
    (hk : ∀ k ∈ e.kerberosIdentities, k.SharesKeytabs shared) : Distinct shared e.resources := by
  have hin : e.HoldsApart grammar [] (IsManagementPart grammar) := h.inside
  apply HoldsApart.distinct hin (k := managementKey)
    (l := [.securityRealms, .outboundConnections, .configurationChanges])
  · decide
  · intro c hc
    obtain ⟨hk, _⟩ | ⟨hk, _⟩ | ⟨hk, _⟩ := kind_of_isManagementPart hc
    all_goals simp [hk]
  · intro c hc r hr
    exact key_of_mem_managementPart hc hr
  · intro c hc ha
    apply distinct_managementPart ha
    intro hkind r hr k hkr
    refine hk k (List.mem_flatMap.2 ⟨c, mem_ofKind.2 ⟨hc, hkind⟩, ?_⟩)
    exact List.mem_flatMap.2 ⟨r, hr, hkr⟩

theorem distinct_resources_keytabs (h : IsManagement grammar e) :
    Distinct (·.key = "keytab") e.resources :=
  distinct_resources h fun _ _ => List.pairwise_of_forall fun _ _ _ => rfl

theorem ordered_resources (h : IsManagement grammar e) : Resource.Ordered e.resources :=
  (distinct_resources_keytabs h).ordered

end ManagementScript.Element

namespace ManagementScript.Compilation

/-- Behind the commands that are there the compilation adds those of a tree below the management
resource. A command comes after that of its owner, and none comes before that of a resource above. -/
theorem management_adds_tree {grammar : GrammarNamespace} {base : Address} {native : Bool}
    {s s' : CompilationState Unit}
    (h : management grammar .declining base native s = (.ok (), s')) :
    let root := base.append "core-service" "management"
    ∃ commands, s'.script.toList = s.script.toList ++ commands ∧
      (∀ before c after, commands = before ++ c :: after → ∃ path segment,
        c.address.segments = root.segments ++ path ++ [segment] ∧
          (path = [] ∨ ∃ b ∈ before, b.address.segments = root.segments ++ path)) ∧
      commands.Pairwise fun c d => d.address.isStrictPrefixOf c.address = false := by
  intro root
  obtain ⟨e, d, _, he, _, _, hs⟩ := management_eq_ok_iff.1 h
  refine ⟨e.commands base, hs.script.toList, ?_, (Element.ordered_resources he).pairwise _⟩
  intro before c after hsplit
  have hfounded : Founded [root] (e.commands base) :=
    Resource.founded_commandsOfAll (List.mem_singleton_self _) _
  rw [hsplit] at hfounded
  obtain ⟨owner, ho, key, value, hc⟩ := hfounded.exists_owner
  cases ho with
  | inl ho =>
    rw [List.mem_singleton.1 ho] at hc
    exact ⟨[], ⟨key, value⟩, by simp [hc, Address.append], .inl rfl⟩
  | inr ho =>
    obtain ⟨b, hb, rfl⟩ := ho
    have hmem : b ∈ e.commands base := by
      rw [hsplit]
      exact List.mem_append_left _ hb
    obtain ⟨r, _, path, hp⟩ := Resource.address_of_mem_commandsOfAll _ hmem
    refine ⟨r.segment :: path, ⟨key, value⟩, ?_, .inr ⟨b, hb, hp⟩⟩
    rw [hc, Address.append, hp]

theorem management_adds_realm_tree : ∃ s' commands,
    management .domain42 .declining .root false (RealmSample.state .empty) = (.ok (), s') ∧
      s'.script.toList = commands ∧
      commands.Pairwise fun c d => d.address.isStrictPrefixOf c.address = false := by
  obtain ⟨s', hs⟩ := RealmSample.compiles
  obtain ⟨commands, hc, _, hp⟩ := management_adds_tree hs
  exact ⟨s', commands, hs, hc, hp⟩

end ManagementScript.Compilation
