import Mathlib
import ManagementScript.Proofs.Management.CommandTree
import ManagementScript.Proofs.Management.Typing

/-!
Resources that exclude each other. Of the sources of a realm, of the searches of a directory and of the
caches of a resource the grammar lets only one stand in a place, and the commands show it: which of
them can be added together is told by their addresses.
-/

namespace ManagementScript

namespace Resource

variable {clash : Segment → Segment → Prop}

/-- No two resources side by side clash, here and further down. -/
inductive Compatible (clash : Segment → Segment → Prop) : List Resource → Prop where
  | intro (here : rs.Pairwise fun r r' => ¬clash r.segment r'.segment)
      (inside : ∀ r ∈ rs, Compatible clash r.children) : Compatible clash rs

theorem Compatible.here (h : Compatible clash rs) :
    rs.Pairwise fun r r' => ¬clash r.segment r'.segment := by
  cases h with
  | intro here _ => exact here

theorem Compatible.inside (h : Compatible clash rs) (hr : r ∈ rs) : Compatible clash r.children := by
  cases h with
  | intro _ inside => exact inside r hr

/-- The last step of a way is its first step below an owner or comes behind that. -/
theorem last_step {way above : List Segment} (h : way ++ r :: path = above ++ [s]) :
    path = [] ∧ above = way ∧ r = s ∨ ∃ rest, path = rest ++ [s] ∧ above = way ++ r :: rest := by
  rcases List.eq_nil_or_concat' path with rfl | ⟨rest, t, rfl⟩
  · obtain ⟨hover, hlast⟩ := List.append_inj' h rfl
    exact .inl ⟨rfl, hover.symm, List.singleton_inj.1 hlast⟩
  · rw [← List.cons_append, ← List.append_assoc] at h
    obtain ⟨hover, hlast⟩ := List.append_inj' h rfl
    exact .inr ⟨rest, by rw [List.singleton_inj.1 hlast], hover.symm⟩

/-- Resources side by side are told apart by the last steps of their addresses. Below them the owners
differ, if a resource with others below it is alone in its place. -/
theorem not_clash_of_siblings {r r' : Resource} {owner : Address} {c d : Command}
    (hclash : ¬clash r.segment r'.segment) (halone : r.segment = r'.segment → r.children = [])
    (hc : c ∈ r.commands owner) (hd : d.address.segments = owner.segments ++ r'.segment :: path)
    (hcs : c.address.segments = above ++ [s]) (hdt : d.address.segments = above ++ [t]) :
    ¬clash s t := by
  obtain ⟨path', hc'⟩ := address_of_mem_commands r hc
  rcases last_step (hc'.symm.trans hcs) with ⟨_, habove, rfl⟩ | ⟨rest, hrest, habove⟩
  · rcases last_step (hd.symm.trans hdt) with ⟨_, _, rfl⟩ | ⟨rest', _, habove'⟩
    · exact hclash
    · simp [habove] at habove'
  · rcases last_step (hd.symm.trans hdt) with ⟨_, habove', _⟩ | ⟨rest', _, habove'⟩
    · simp [habove] at habove'
    · rw [habove, List.append_cancel_left_eq] at habove'
      rw [List.head_eq_of_cons_eq habove'] at hc'
      obtain ⟨_, hnil⟩ := address_of_siblings halone hc hc'
      simp [hnil] at hrest

/-- The commands of resources that do not clash have addresses that do not. -/
theorem Compatible.pairwise (h : Compatible clash rs) (hd : Distinct shared rs) (owner : Address) :
    (commandsOfAll owner rs).Pairwise fun c d => ∀ above s t, c.address.segments = above ++ [s] →
      d.address.segments = above ++ [t] → ¬clash s t := by
  induction h generalizing owner with
  | intro here _ ih =>
    refine pairwise_commandsOfAll ?_ ?_ (fun r hr => ih r hr (hd.inside hr)) owner
    · intro c d s path hp above t u hc hd
      have hlength := congrArg List.length (hp.symm.trans hd)
      simp [hc] at hlength
    · apply (here.and hd.here).imp
      intro r r' hr owner c d path hc hd above s t hcs hdt
      exact not_clash_of_siblings hr.1 (fun he => (hr.2 he).1) hc hd hcs hdt

end Resource

/-- The names of the sources of passwords. -/
def passwordSourceNames : List String := Compilation.passwordSources.map (·.localName)

/-- The keys of the resources of which one excludes the others of its key. -/
def exclusiveKeys : List String := ["authorization", "username-to-dn", "group-search", "cache"]

/-- Segments of which one owner may only have one below it. -/
def Segment.Excludes (s t : Segment) : Prop :=
  s.key = t.key ∧ (s.key ∈ exclusiveKeys ∨ s.key = "authentication" ∧
    (s.value = t.value ∨ s.value ∈ passwordSourceNames ∧ t.value ∈ passwordSourceNames))

namespace Element

open Resource (Compatible)

/-- Keys of which several resources may stand side by side. -/
def IsOpenKey (key : String) : Prop := key ∉ "authentication" :: exclusiveKeys

instance (key : String) : Decidable (IsOpenKey key) := inferInstanceAs (Decidable (key ∉ _))

theorem not_excludes_of_isOpenKey {s t : Segment} (h : IsOpenKey s.key) : ¬s.Excludes t := by
  intro he
  rcases he.2 with hk | ⟨hk, _⟩
  · exact h (List.mem_cons_of_mem _ hk)
  · exact h (hk ▸ List.mem_cons_self ..)

theorem compatible_of_isOpenKey
    (h : ∀ r ∈ rs, IsOpenKey r.segment.key ∧ Compatible Segment.Excludes r.children) :
    Compatible Segment.Excludes rs := by
  apply Compatible.intro
  · apply List.pairwise_of_forall_mem_list
    intro r hr _ _
    exact not_excludes_of_isOpenKey (h r hr).1
  · intro r hr
    exact (h r hr).2

theorem compatible_nil : Compatible Segment.Excludes [] := .intro .nil (List.forall_mem_nil _)

/-- Resources of one key with nothing below them. -/
theorem compatible_map {f : Element → Resource} (key : String) (hopen : IsOpenKey key)
    (hk : ∀ e, (f e).segment.key = key) (hc : ∀ e, (f e).children = []) (es : List Element) :
    Compatible Segment.Excludes (es.map f) := by
  apply compatible_of_isOpenKey
  intro r hr
  obtain ⟨e, _, rfl⟩ := List.mem_map.1 hr
  exact ⟨(hk e).symm ▸ hopen, (hc e).symm ▸ compatible_nil⟩

theorem property_isOpenKey : IsOpenKey "property" := by decide

theorem compatible_propertiesInside (valueRequired : Bool) (e : Element) :
    Compatible Segment.Excludes (e.propertiesInside valueRequired) := by
  apply compatible_of_isOpenKey
  intro r hr
  obtain ⟨c, _, hr⟩ := List.mem_flatMap.1 hr
  obtain ⟨p, _, rfl⟩ := List.mem_map.1 hr
  exact ⟨property_isOpenKey, compatible_nil⟩

theorem compatible_caches (h : HoldsFilter grammar alternatives accepts e)
    (hcache : .cache ∉ alternatives) : Compatible Segment.Excludes e.caches := by
  apply Compatible.intro
  · exact (caches_pairwise h hcache).imp False.elim
  · intro r hr
    obtain ⟨c, _, rfl⟩ := List.mem_map.1 hr
    exact compatible_nil

/-- Resources that are made of accepted children one by one. -/
theorem Holds.compatible_map {e : Element} {f : Element → Resource} (h : e.Holds grammar R A)
    (here : ∀ c d, A c → A d → R c d → ¬(f c).segment.Excludes (f d).segment)
    (below : ∀ c, A c → Compatible Segment.Excludes (f c).children) :
    Compatible Segment.Excludes (e.children.map f) := by
  apply Compatible.intro
  · apply List.pairwise_map.2
    apply h.compatible.imp_of_mem
    intro c d hc hd hcd
    exact here c d (h.accepted c hc) (h.accepted d hd) hcd
  · intro r hr
    obtain ⟨c, hc, rfl⟩ := List.mem_map.1 hr
    exact below c (h.accepted c hc)

/-! ### Directories -/

theorem compatible_directorySearches (h : IsLdapAuthorization grammar e) :
    Compatible Segment.Excludes (e.children.map directorySearch) := by
  have hin : e.Holds grammar (Apart []) (IsDirectorySearch grammar) := h.inside
  apply hin.compatible_map
  · intro c d hc hd hcd he
    have hkey := he.1
    rw [segment_directorySearch hc, segment_directorySearch hd] at hkey
    exact hcd.1 (localName_injective hkey)
  · intro c hc
    obtain ⟨hk, hc⟩ | ⟨hk, hc⟩ := kind_of_isDirectorySearch hc
    · simp only [directorySearch, hk]
      exact compatible_caches hc.inside (by decide)
    · simp only [directorySearch, hk]
      exact compatible_caches hc.inside (by decide)

/-! ### Realms -/

theorem mem_passwordSourceNames {kind : ElementName} :
    kind.localName ∈ passwordSourceNames ↔ kind ∈ Compilation.passwordSources := by
  rw [passwordSourceNames, List.mem_map]
  apply Iff.intro
  · intro h
    obtain ⟨kind', hk, he⟩ := h
    exact localName_injective he ▸ hk
  · intro h
    exact ⟨kind, h, rfl⟩

theorem authentication_notMem : "authentication" ∉ exclusiveKeys := by decide

theorem compatible_authentication (h : IsAuthentication grammar e) :
    Compatible Segment.Excludes (e.children.map authenticationSource) := by
  have hin : e.Holds grammar (Apart Compilation.passwordSources) (IsAuthenticationSource grammar) :=
    h.inside
  apply hin.compatible_map
  · intro c d hc hd hcd he
    rw [segment_authenticationSource hc, segment_authenticationSource hd] at he
    rcases he.2 with hk | ⟨_, hv | ⟨hv, hv'⟩⟩
    · exact authentication_notMem hk
    · exact hcd.1 (localName_injective hv)
    · exact hcd.2 ⟨mem_passwordSourceNames.1 hv, mem_passwordSourceNames.1 hv'⟩
  · intro c ha
    simp only [IsAuthenticationSource] at ha
    split at ha
    case h_5 hk =>
      simp only [authenticationSource, hk]
      exact compatible_caches ha.inside (by decide)
    case h_7 hk =>
      simp only [authenticationSource, hk]
      exact compatible_map "user" (by decide) (fun _ => rfl) (fun _ => rfl) _
    case h_8 hk =>
      simp only [authenticationSource, hk]
      exact compatible_propertiesInside false c
    case h_9 => cases ha
    all_goals
      next hk =>
      simp only [authenticationSource, hk]
      exact compatible_nil

/-- All sources of groups exclude each other. -/
theorem compatible_authorization (h : IsAuthorization grammar e) :
    Compatible Segment.Excludes (e.children.map authorizationSource) := by
  have hin : e.Holds grammar (Apart Compilation.groupSources) (IsAuthorizationSource grammar) :=
    h.inside
  have hsource {c : Element} (hc : IsAuthorizationSource grammar c) :
      c.kind ∈ Compilation.groupSources := by
    obtain ⟨hk, _⟩ | ⟨hk, _⟩ | ⟨hk, _⟩ := kind_of_isAuthorizationSource hc
    all_goals simp [hk, Compilation.groupSources]
  apply hin.compatible_map
  · intro c d hc hd hcd _
    exact hcd.2 ⟨hsource hc, hsource hd⟩
  · intro c hc
    obtain ⟨hk, _⟩ | ⟨hk, _⟩ | ⟨hk, hc⟩ := kind_of_isAuthorizationSource hc
    · simp only [authorizationSource, hk]
      exact compatible_nil
    · simp only [authorizationSource, hk]
      exact compatible_propertiesInside false c
    · simp only [authorizationSource, hk]
      exact compatible_directorySearches hc

theorem compatible_realmPart (h : IsRealmPart grammar c) :
    Compatible Segment.Excludes c.realmPart := by
  obtain ⟨hk, _⟩ | ⟨hk, hc⟩ | ⟨hk, hc⟩ | ⟨hk, hc⟩ := kind_of_isRealmPart h
  · simp only [realmPart, hk]
    exact compatible_map "plug-in" (by decide) (fun _ => rfl) (fun _ => rfl) _
  · simp only [realmPart, hk]
    have hopen : IsOpenKey "server-identity" := by decide
    apply compatible_of_isOpenKey
    intro r hr
    obtain ⟨d, hd, rfl⟩ := List.mem_map.1 hr
    have hd := hc.inside.accepted d hd
    refine ⟨by rwa [segment_serverIdentity hd], ?_⟩
    obtain ⟨hkind, _⟩ | ⟨hkind, _⟩ | ⟨hkind, _⟩ := kind_of_isServerIdentity hd
    · simp only [serverIdentity, hkind]
      exact compatible_nil
    · simp only [serverIdentity, hkind]
      exact compatible_nil
    · simp only [serverIdentity, hkind]
      exact compatible_map "keytab" (by decide) (fun _ => rfl) (fun _ => rfl) _
  · simp only [realmPart, hk]
    exact compatible_authentication hc
  · simp only [realmPart, hk]
    exact compatible_authorization hc

/-- The parts of a realm have keys of their own. -/
theorem compatible_securityRealm (h : IsSecurityRealm grammar e) :
    Compatible Segment.Excludes e.securityRealm.children := by
  have hin : e.HoldsApart grammar [] (IsRealmPart grammar) := h.inside
  have hpart {c : Element} (hc : c ∈ e.children) := compatible_realmPart (hin.accepted c hc)
  apply Compatible.intro
  · apply List.pairwise_flatMap.2
    apply And.intro
    · intro c hc
      exact (hpart hc).here
    · apply hin.compatible.imp_of_mem
      intro c d hc hd hcd r hr r' hr' he
      have hkey := he.1
      have hc := hin.accepted c hc
      have hd := hin.accepted d hd
      rw [key_of_mem_realmPart hc hr, key_of_mem_realmPart hd hr'] at hkey
      exact realmKey_ne _ (kind_mem_realmParts hc) _ (kind_mem_realmParts hd) hcd.1 hkey
  · intro r hr
    obtain ⟨c, hc, hr⟩ := List.mem_flatMap.1 hr
    exact (hpart hc).inside hr

/-! ### The whole element -/

theorem compatible_resources (h : IsManagement grammar e) :
    Compatible Segment.Excludes e.resources := by
  have hrealm : IsOpenKey "security-realm" := by decide
  have hconnection : IsOpenKey "ldap-connection" := by decide
  have hservice : IsOpenKey "service" := by decide
  apply compatible_of_isOpenKey
  intro r hr
  obtain ⟨c, hc, hr⟩ := List.mem_flatMap.1 hr
  obtain ⟨hk, hc⟩ | ⟨hk, hc⟩ | ⟨hk, _⟩ := kind_of_isManagementPart (h.inside.accepted c hc)
  · simp only [managementPart, hk] at hr
    obtain ⟨d, hd, rfl⟩ := List.mem_map.1 hr
    exact ⟨hrealm, compatible_securityRealm (hc.inside.accepted d hd).2⟩
  · simp only [managementPart, hk] at hr
    obtain ⟨d, _, rfl⟩ := List.mem_map.1 hr
    exact ⟨hconnection, compatible_propertiesInside true d⟩
  · simp only [managementPart, hk, List.mem_singleton] at hr
    subst hr
    exact ⟨hservice, compatible_nil⟩

end Element

/-! ### The ways to the resources that exclude others -/

namespace ResourceKind

theorem below?_concat (kind : ResourceKind) (path : List Segment) (s : Segment) :
    kind.below? (path ++ [s]) = (kind.below? path).bind (·.child? s) := by
  induction path generalizing kind with
  | nil =>
    simp only [List.nil_append, below?, Option.bind_some]
    cases kind.child? s <;> rfl
  | cons t path ih =>
    rw [List.cons_append, below?, below?]
    cases kind.child? t with
    | none => rfl
    | some k => exact ih k

theorem management_of_child? {kind : ResourceKind} : kind.child? s ≠ some management := by
  unfold child?
  split <;> simp

theorem securityRealm_of_child? {kind : ResourceKind} (h : kind.child? s = some securityRealm) :
    kind = management ∧ s.key = "security-realm" := by
  unfold child? at h
  split at h <;> simp_all

theorem ldapAuthorization_of_child? {kind : ResourceKind}
    (h : kind.child? s = some ldapAuthorization) :
    kind = securityRealm ∧ s = ⟨"authorization", "ldap"⟩ := by
  unfold child? at h
  split at h <;> simp_all

/-- The keys of the searches of a directory. -/
def searchKeys : List String := ["username-to-dn", "group-search"]

theorem owner_of_search {kind : ResourceKind} (hs : s.key ∈ searchKeys)
    (h : kind.child? s = some k) : kind = ldapAuthorization := by
  unfold child? at h
  split at h <;> simp_all [searchKeys]

/-- The kinds of resources that look something up in a directory. -/
def lookups : List ResourceKind :=
  [ldapAuthentication, userByDn, userByName, userByFilter, groupsOfMember, groupsOfPrincipal]

theorem owner_of_cache {kind : ResourceKind} (h : kind.child? ⟨"cache", v⟩ = some k) :
    kind ∈ lookups := by
  unfold child? at h
  split at h <;> simp_all [lookups]

theorem owner_of_lookup {kind : ResourceKind} (hk : k ∈ lookups) (h : kind.child? s = some k) :
    kind = securityRealm ∧ s = ⟨"authentication", "ldap"⟩ ∨
      kind = ldapAuthorization ∧ s.key ∈ searchKeys := by
  unfold child? at h
  split at h <;> cases h <;> simp_all [lookups, searchKeys]

/-- The way to a resource is the way to its owner and one step more. -/
theorem exists_step {path : List Segment} (hne : k ≠ management)
    (h : management.below? path = some k) :
    ∃ way s owner, path = way ++ [s] ∧ management.below? way = some owner ∧
      owner.child? s = some k := by
  rcases List.eq_nil_or_concat' path with rfl | ⟨way, s, rfl⟩
  · exact absurd (Option.some.inj h).symm hne
  · rw [below?_concat] at h
    obtain ⟨owner, ho, hs⟩ := Option.bind_eq_some_iff.1 h
    exact ⟨way, s, owner, rfl, ho, hs⟩

theorem path_of_management {path : List Segment} (h : management.below? path = some management) :
    path = [] := by
  rcases List.eq_nil_or_concat' path with rfl | ⟨way, s, rfl⟩
  · rfl
  · rw [below?_concat] at h
    obtain ⟨_, _, hs⟩ := Option.bind_eq_some_iff.1 h
    exact absurd hs management_of_child?

theorem path_of_securityRealm {path : List Segment}
    (h : management.below? path = some securityRealm) : ∃ name, path = [⟨"security-realm", name⟩] := by
  obtain ⟨way, ⟨key, name⟩, owner, rfl, hway, hs⟩ := exists_step (by decide) h
  obtain ⟨rfl, rfl⟩ := securityRealm_of_child? hs
  rw [path_of_management hway]
  exact ⟨name, rfl⟩

theorem path_of_ldapAuthorization {path : List Segment}
    (h : management.below? path = some ldapAuthorization) :
    ∃ name, path = [⟨"security-realm", name⟩, ⟨"authorization", "ldap"⟩] := by
  obtain ⟨way, s, owner, rfl, hway, hs⟩ := exists_step (by decide) h
  obtain ⟨rfl, rfl⟩ := ldapAuthorization_of_child? hs
  obtain ⟨name, rfl⟩ := path_of_securityRealm hway
  exact ⟨name, rfl⟩

/-- A search is directly below the authorization of a realm by a directory. -/
theorem path_of_search {path : List Segment} (hs : s.key ∈ searchKeys)
    (h : management.below? (path ++ [s]) = some k) :
    ∃ name, path = [⟨"security-realm", name⟩, ⟨"authorization", "ldap"⟩] := by
  rw [below?_concat] at h
  obtain ⟨owner, ho, hk⟩ := Option.bind_eq_some_iff.1 h
  rw [owner_of_search hs hk] at ho
  exact path_of_ldapAuthorization ho

/-- A cache is directly below the authentication of a realm by a directory or below a search. -/
theorem path_of_cache {path : List Segment}
    (h : management.below? (path ++ [⟨"cache", v⟩]) = some k) :
    ∃ name, path = [⟨"security-realm", name⟩, ⟨"authentication", "ldap"⟩] ∨
      ∃ t : Segment, t.key ∈ searchKeys ∧
        path = [⟨"security-realm", name⟩, ⟨"authorization", "ldap"⟩, t] := by
  rw [below?_concat] at h
  obtain ⟨owner, ho, hk⟩ := Option.bind_eq_some_iff.1 h
  have howner := owner_of_cache hk
  have hne : owner ≠ management := by
    rintro rfl
    exact absurd howner (by decide)
  obtain ⟨way, t, kind, rfl, hway, ht⟩ := exists_step hne ho
  rcases owner_of_lookup howner ht with ⟨rfl, rfl⟩ | ⟨rfl, hkey⟩
  · obtain ⟨name, rfl⟩ := path_of_securityRealm hway
    exact ⟨name, .inl rfl⟩
  · obtain ⟨name, rfl⟩ := path_of_ldapAuthorization hway
    exact ⟨name, .inr ⟨t, hkey, rfl⟩⟩

end ResourceKind

/-! ### The commands -/

/-- No two of the commands have the property. -/
def AtMostOne (p : Command → Prop) (commands : List Command) : Prop :=
  commands.Pairwise fun c d => ¬(p c ∧ p d)

/-- Commands one step below one owner of which each excludes the others. -/
theorem atMostOne_of_excludes {above : List Segment} {q : Segment → Prop}
    (h : commands.Pairwise fun c d => ∀ above s t, c.address.segments = above ++ [s] →
      d.address.segments = above ++ [t] → ¬s.Excludes t)
    (hp : ∀ c ∈ commands, p c → ∃ s, c.address.segments = above ++ [s] ∧ q s)
    (hq : ∀ s t, q s → q t → s.Excludes t) : AtMostOne p commands := by
  apply h.imp_of_mem
  intro c d hc hd hcd hboth
  obtain ⟨s, hs, hqs⟩ := hp c hc hboth.1
  obtain ⟨t, ht, hqt⟩ := hp d hd hboth.2
  exact hcd above s t hs ht (hq s t hqs hqt)

/-- What the commands below a realm exclude. -/
structure ExcludedInRealm (realm : Address) (commands : List Command) : Prop where
  password : AtMostOne (fun c => ∃ x ∈ ["jaas", "ldap", "properties", "users", "plug-in"],
    c.address = realm.append "authentication" x) commands
  mechanism : ∀ x ∈ ["truststore", "local", "kerberos"],
    AtMostOne (·.address = realm.append "authentication" x) commands
  group : AtMostOne (fun c => ∃ x, c.address = realm.append "authorization" x) commands
  search : ∀ key ∈ ["username-to-dn", "group-search"], AtMostOne (fun c => ∃ path y,
    c.address.segments =
      (realm.append "authorization" "ldap").segments ++ path ++ [⟨key, y⟩]) commands

/-- The resource of a realm that looks something up in a directory: the source of its passwords, or
one of the two searches that its groups are found by. -/
def IsLookup (realm owner : Address) : Prop :=
  owner = realm.append "authentication" "ldap" ∨
    ∃ key ∈ ["username-to-dn", "group-search"], ∃ y,
      owner = (realm.append "authorization" "ldap").append key y

namespace Element

theorem commands_exclude (h : IsManagement grammar e) (base : Address) :
    (e.commands base).Pairwise fun c d => ∀ above s t, c.address.segments = above ++ [s] →
      d.address.segments = above ++ [t] → ¬s.Excludes t :=
  (compatible_resources h).pairwise (distinct_resources_keytabs h) _

/-- The path of a command below the management resource tells what it adds. -/
theorem below?_of_mem_commands (h : IsManagement grammar e) (hc : c ∈ e.commands base)
    (hp : c.address.segments = (base.append "core-service" "management").segments ++ path) :
    ∃ kind, ResourceKind.management.below? path = some kind := by
  obtain ⟨path', kind, hp', hk, _⟩ :=
    Resource.typed_of_mem_commandsOfAll _ (typed_resources h) hc
  rw [hp, List.append_cancel_left_eq] at hp'
  exact ⟨kind, hp' ▸ hk⟩

theorem excludedInRealm (h : IsManagement grammar e) (base : Address) (name : String) :
    ExcludedInRealm ((base.append "core-service" "management").append "security-realm" name)
      (e.commands base) where
  password := by
    apply atMostOne_of_excludes (commands_exclude h base)
      (q := fun s => s.key = "authentication" ∧ s.value ∈ passwordSourceNames)
    · intro c _ hc
      obtain ⟨x, hx, hc⟩ := hc
      exact ⟨⟨"authentication", x⟩, by rw [hc]; rfl, rfl, hx⟩
    · intro s t hs ht
      exact ⟨hs.1.trans ht.1.symm, .inr ⟨hs.1, .inr ⟨hs.2, ht.2⟩⟩⟩
  mechanism x _ := by
    apply atMostOne_of_excludes (commands_exclude h base) (q := (· = ⟨"authentication", x⟩))
    · intro c _ hc
      exact ⟨⟨"authentication", x⟩, by rw [hc]; rfl, rfl⟩
    · intro s t hs ht
      rw [hs, ht]
      exact ⟨rfl, .inr ⟨rfl, .inl rfl⟩⟩
  group := by
    apply atMostOne_of_excludes (commands_exclude h base) (q := (·.key = "authorization"))
    · intro c _ hc
      obtain ⟨x, hc⟩ := hc
      exact ⟨⟨"authorization", x⟩, by rw [hc]; rfl, rfl⟩
    · intro s t hs ht
      exact ⟨hs.trans ht.symm, .inl (by simp [hs, exclusiveKeys])⟩
  search key hkey := by
    apply @atMostOne_of_excludes _ _
      (((base.append "core-service" "management").append "security-realm" name).append
        "authorization" "ldap").segments (·.key = key) (commands_exclude h base)
    · intro c hc hp
      obtain ⟨path, y, hp⟩ := hp
      refine ⟨⟨key, y⟩, ?_, rfl⟩
      have hbelow : c.address.segments = (base.append "core-service" "management").segments ++
          (⟨"security-realm", name⟩ :: ⟨"authorization", "ldap"⟩ :: path ++ [⟨key, y⟩]) := by
        simp [hp, Address.append]
      obtain ⟨kind, hkind⟩ := below?_of_mem_commands h hc hbelow
      obtain ⟨_, hpath⟩ := ResourceKind.path_of_search (s := ⟨key, y⟩) hkey hkind
      obtain ⟨_, rfl⟩ : name = _ ∧ path = [] := by simpa using hpath
      rw [hp, List.append_nil]
    · intro s t hs ht
      refine ⟨hs.trans ht.symm, .inl (hs ▸ ?_)⟩
      exact List.mem_cons_of_mem _ (List.mem_append_left ["cache"] hkey)

theorem cache_excludes (h : IsManagement grammar e) (base owner : Address) :
    AtMostOne (fun c => ∃ x, c.address = owner.append "cache" x) (e.commands base) := by
  apply atMostOne_of_excludes (commands_exclude h base) (q := (·.key = "cache"))
  · intro c _ hc
    obtain ⟨x, hc⟩ := hc
    exact ⟨⟨"cache", x⟩, by rw [hc]; rfl, rfl⟩
  · intro s t hs ht
    exact ⟨hs.trans ht.symm, .inl (by simp [hs, exclusiveKeys])⟩

/-- A resource below the management resource has an owner there, or is one step below that itself. -/
theorem owner_of_mem_commands {e : Element} {base owner : Address} (hc : c ∈ e.commands base)
    (ho : c.address = owner.append key value) :
    owner = base.append "core-service" "management" ∨ ∃ o ∈ e.commands base, o.address = owner := by
  obtain ⟨before, after, hsplit⟩ := List.append_of_mem hc
  have hfounded : Founded [base.append "core-service" "management"] (e.commands base) :=
    Resource.founded_commandsOfAll (List.mem_singleton_self _) _
  rw [hsplit] at hfounded
  obtain ⟨owner', howner, key', value', hc'⟩ := hfounded.exists_owner
  obtain rfl : owner' = owner := by
    have hsegments := congrArg Address.segments (hc'.symm.trans ho)
    exact congrArg Address.mk (List.append_inj' hsegments rfl).1
  rcases howner with howner | ⟨b, hb, rfl⟩
  · exact .inl (List.mem_singleton.1 howner)
  · exact .inr ⟨b, hsplit ▸ List.mem_append_left _ hb, rfl⟩

theorem isLookup_of_cache (h : IsManagement grammar e) {base owner : Address}
    (hc : c ∈ e.commands base) (ho : c.address = owner.append "cache" x) :
    ∃ name, IsLookup ((base.append "core-service" "management").append "security-realm" name)
      owner := by
  obtain ⟨r, _, path, hp⟩ := Resource.address_of_mem_commandsOfAll _ hc
  have hroot : ∃ way, owner.segments =
      (base.append "core-service" "management").segments ++ way := by
    rw [ho] at hp
    rcases Resource.last_step hp.symm with ⟨_, hroot, _⟩ | ⟨rest, _, hroot⟩
    · exact ⟨[], by rw [hroot, List.append_nil]⟩
    · exact ⟨_, hroot⟩
  obtain ⟨way, hway⟩ := hroot
  have hbelow : c.address.segments =
      (base.append "core-service" "management").segments ++ (way ++ [⟨"cache", x⟩]) := by
    rw [ho, Address.append, hway, List.append_assoc]
  obtain ⟨kind, hkind⟩ := below?_of_mem_commands h hc hbelow
  obtain ⟨name, hpath⟩ := ResourceKind.path_of_cache hkind
  refine ⟨name, ?_⟩
  rcases hpath with rfl | ⟨⟨key, y⟩, hkey, rfl⟩
  · exact .inl (congrArg Address.mk (by simp [hway, Address.append]))
  · exact .inr ⟨key, hkey, y, congrArg Address.mk (by simp [hway, Address.append])⟩

/-- What looks something up is below a realm. -/
theorem ne_of_isLookup {root owner : Address} (h : IsLookup (root.append "security-realm" name) owner) :
    owner ≠ root := by
  rintro rfl
  rcases h with h | ⟨key, _, y, h⟩
  · have hlength := congrArg Address.length h
    simp only [Address.length_append] at hlength
    omega
  · have hlength := congrArg Address.length h
    simp only [Address.length_append] at hlength
    omega

end Element

namespace Compilation

/-- Among the commands that are added there is for each realm at most one that adds a source of
passwords, one that adds a truststore, one for each mechanism, one source of groups, and one search of
each kind below that. No two caches have one owner, and the owner of a cache, which a command adds too,
looks something up in a directory. -/
theorem management_adds_exclusive {grammar : GrammarNamespace} {base : Address} {native : Bool}
    {s s' : CompilationState Unit}
    (h : management grammar .declining base native s = (.ok (), s')) :
    let root := base.append "core-service" "management"
    ∃ commands, s'.script.toList = s.script.toList ++ commands ∧
      (∀ name, ExcludedInRealm (root.append "security-realm" name) commands) ∧
      ∀ owner, AtMostOne (fun c => ∃ x, c.address = owner.append "cache" x) commands ∧
        ∀ c ∈ commands, ∀ x, c.address = owner.append "cache" x →
          (∃ o ∈ commands, o.address = owner) ∧
            ∃ name, IsLookup (root.append "security-realm" name) owner := by
  intro root
  obtain ⟨e, d, _, he, _, _, hs⟩ := management_eq_ok_iff.1 h
  refine ⟨e.commands base, hs.script.toList, Element.excludedInRealm he base, ?_⟩
  intro owner
  refine ⟨Element.cache_excludes he base owner, ?_⟩
  intro c hc x ho
  obtain ⟨name, hlookup⟩ := Element.isLookup_of_cache he hc ho
  refine ⟨?_, name, hlookup⟩
  rcases Element.owner_of_mem_commands hc ho with hroot | howner
  · exact absurd hroot (Element.ne_of_isLookup hlookup)
  · exact howner

/-! ### A realm whose users are looked up -/

namespace LookupSample

open RealmSample (tags)

/-- The users of a realm are looked up in a directory, by way of a cache. -/
def state : CompilationState Unit where
  cursor := RealmSample.cursor ["management"] [] <|
    tags "security-realms" "" (tags "security-realm" " name='r'"
      (tags "authorization" "" (tags "ldap" " connection='c'"
        (tags "username-to-dn" "" (tags "cache" "" [] ++ tags "username-is-dn" "" []))))) ++
    [.finish 0 ⟨.ok none, "management"⟩]
  script := .empty
  delegate := ()
  events := #[]

def realm : Address := ⟨[⟨"core-service", "management"⟩, ⟨"security-realm", "r"⟩]⟩

theorem result : (management .domain42 .declining .root false state).1 = .ok () := by cbv

theorem compiles : ∃ s', management .domain42 .declining .root false state = (.ok (), s') := by
  have hok := result
  generalize management .domain42 .declining .root false state = outcome at hok ⊢
  obtain ⟨_, s'⟩ := outcome
  cases hok
  exact ⟨s', rfl⟩

end LookupSample

theorem management_adds_exclusive_lookup : ∃ s' commands,
    management .domain42 .declining .root false LookupSample.state = (.ok (), s') ∧
      s'.script.toList = commands ∧ ExcludedInRealm LookupSample.realm commands ∧
      ∀ c ∈ commands, ∀ owner x, c.address = owner.append "cache" x →
        ∃ o ∈ commands, o.address = owner := by
  obtain ⟨s', hs⟩ := LookupSample.compiles
  obtain ⟨commands, hc, hrealm, hcache⟩ := management_adds_exclusive hs
  refine ⟨s', commands, hs, hc, hrealm "r", ?_⟩
  intro c hmem owner x ho
  exact ((hcache owner).2 c hmem x ho).1

end Compilation

end ManagementScript
