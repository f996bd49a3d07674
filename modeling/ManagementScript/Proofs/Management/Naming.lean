import ManagementScript.Proofs.Management.Translation

/-!
Where the places of resources come from. Each step below the management resource is a word of the
vocabulary, or it carries the text of an attribute that names an element.
-/

namespace ManagementScript

namespace Resource

mutual

/-- The place and the parameters of a resource are as `P` says, and so on further down. -/
def Throughout (P : Segment → Parameters → Prop) : Resource → Prop
  | mk segment parameters children => P segment parameters ∧ AllThroughout P children

def AllThroughout (P : Segment → Parameters → Prop) : List Resource → Prop
  | [] => True
  | r :: rs => r.Throughout P ∧ AllThroughout P rs

end

variable {P Q : Segment → Parameters → Prop}

theorem allThroughout_iff {rs : List Resource} : AllThroughout P rs ↔ ∀ r ∈ rs, r.Throughout P := by
  induction rs with
  | nil => simp [AllThroughout]
  | cons r rs ih => rw [AllThroughout, ih, List.forall_mem_cons]

mutual

theorem Throughout.imp (hpq : ∀ s ps, P s ps → Q s ps) : ∀ {r : Resource}, r.Throughout P → r.Throughout Q
  | mk _ _ _, h => ⟨hpq _ _ h.1, AllThroughout.imp hpq h.2⟩

theorem AllThroughout.imp (hpq : ∀ s ps, P s ps → Q s ps) :
    ∀ {rs : List Resource}, AllThroughout P rs → AllThroughout Q rs
  | [], _ => trivial
  | _ :: _, h => ⟨Throughout.imp hpq h.1, AllThroughout.imp hpq h.2⟩

end

theorem allThroughout_map {f : α → Resource} {xs : List α} (h : ∀ x ∈ xs, (f x).Throughout P) :
    AllThroughout P (xs.map f) :=
  allThroughout_iff.2 (List.forall_mem_map.2 h)

theorem allThroughout_flatMap {f : α → List Resource} {xs : List α}
    (h : ∀ x ∈ xs, AllThroughout P (f x)) : AllThroughout P (xs.flatMap f) := by
  apply allThroughout_iff.2
  intro r hr
  obtain ⟨x, hx, hr⟩ := List.mem_flatMap.1 hr
  exact allThroughout_iff.1 (h x hx) r hr

mutual

/-- The steps from the owner down to a command are those of resources on the way, and its parameters
are those of the last of them. -/
theorem throughout_of_mem_commands {owner : Address} :
    ∀ r : Resource, r.Throughout P → c ∈ r.commands owner → ∃ path s,
      c.address.segments = owner.segments ++ path ∧ (∀ t ∈ path, ∃ ps, P t ps) ∧ P s c.parameters
  | mk ⟨key, value⟩ ps children, h, hc => by
    cases hc with
    | head => exact ⟨[⟨key, value⟩], _, rfl, List.forall_mem_singleton.2 ⟨ps, h.1⟩, h.1⟩
    | tail _ hc =>
      obtain ⟨path, s, hp, hall, hs⟩ := throughout_of_mem_commandsOfAll children h.2 hc
      refine ⟨⟨key, value⟩ :: path, s, ?_, List.forall_mem_cons.2 ⟨⟨ps, h.1⟩, hall⟩, hs⟩
      rw [hp]
      simp [Address.append]

theorem throughout_of_mem_commandsOfAll {owner : Address} :
    ∀ rs : List Resource, AllThroughout P rs → c ∈ commandsOfAll owner rs → ∃ path s,
      c.address.segments = owner.segments ++ path ∧ (∀ t ∈ path, ∃ ps, P t ps) ∧ P s c.parameters
  | r :: rs, h, hc => by
    cases List.mem_append.1 hc with
    | inl hc => exact throughout_of_mem_commands r h.1 hc
    | inr hc => exact throughout_of_mem_commandsOfAll rs h.2 hc

end

end Resource

namespace Element

open Resource (Throughout AllThroughout allThroughout_map allThroughout_flatMap)

/-- The second element is the first, or stands somewhere inside it. -/
inductive Around : Element → Element → Prop where
  | here (e : Element) : Around e e
  | inside (hc : c ∈ e.children) (h : Around c d) : Around e d

/-- The elements that are named by an attribute, with the key of what they become. -/
def namings : List (ElementName × AttributeName × String) :=
  [(.securityRealm, .name, "security-realm"), (.plugIn, .module, "plug-in"),
    (.keytab, .principal, "keytab"), (.user, .username, "user"), (.ldap, .name, "ldap-connection"),
    (.property, .name, "property")]

/-- The keys of the steps below the management resource. -/
def keys : List String :=
  ["service", "server-identity", "authentication", "authorization", "username-to-dn", "group-search",
    "cache"] ++ namings.map (·.2.2)

/-- A step with a fixed word, or one that is named by an attribute of an element in `e`. -/
inductive Places (e : Element) : Segment → Prop where
  | fixed (hk : key ∈ keys) (hv : value ≠ "") : Places e ⟨key, value⟩
  | named (hd : e.Around d) (hn : (d.kind, attr, key) ∈ namings)
      (ha : d.attribute? attr = some value) : Places e ⟨key, value⟩

/-- The resource is one that something in `e` becomes: its place is, and its parameters are put
together one by one. -/
structure Makes (e : Element) (s : Segment) (ps : Parameters) : Prop where
  place : e.Places s
  parameters : ∃ pairs, ps = .ofList pairs

theorem Places.key_mem {e : Element} (h : e.Places s) : s.key ∈ keys := by
  cases h with
  | fixed hk _ => exact hk
  | named _ hn _ => exact List.mem_append_right _ (List.mem_map.2 ⟨_, hn, rfl⟩)

theorem Makes.outward {e c : Element} (hc : c ∈ e.children) (h : c.Makes s ps) : e.Makes s ps := by
  refine ⟨?_, h.parameters⟩
  cases h.place with
  | fixed hk hv => exact .fixed hk hv
  | named hd hn ha => exact .named (.inside hc hd) hn ha

variable {grammar : GrammarNamespace} {e : Element}

theorem throughout_outward {e c : Element} {r : Resource} (hc : c ∈ e.children)
    (h : r.Throughout c.Makes) : r.Throughout e.Makes :=
  h.imp fun _ _ => Makes.outward hc

theorem allThroughout_children {f : Element → Resource}
    (h : ∀ c ∈ e.children, (f c).Throughout c.Makes) : AllThroughout e.Makes (e.children.map f) :=
  allThroughout_map fun c hc => throughout_outward hc (h c hc)

theorem allThroughout_inside {f : Element → List Resource}
    (h : ∀ c ∈ e.children, AllThroughout c.Makes (f c)) :
    AllThroughout e.Makes (e.children.flatMap f) :=
  allThroughout_flatMap fun c hc => (h c hc).imp fun _ _ => Makes.outward hc

/-- An element that has to carry the attribute which names it. -/
theorem places_nameBy {c : Construct} (h : c.Accepts e) (hr : attr ∈ c.required)
    (hn : (e.kind, attr, key) ∈ namings) : e.Places ⟨key, e.nameBy attr⟩ := by
  apply Places.named (.here e) hn
  cases ha : e.attribute? attr with
  | some value => rw [nameBy, ha, Option.getD_some]
  | none =>
    obtain ⟨a, hmem, rfl⟩ := List.mem_map.1 (h.complete attr hr)
    simpa using List.lookup_eq_none_iff.1 ha a hmem

theorem makes_parametersOf (h : e.Places s) (c : Construct) (d : Element) :
    e.Makes s (c.parametersOf d) := ⟨h, _, rfl⟩

theorem makes_empty (h : e.Places s) : e.Makes s .empty := ⟨h, [], rfl⟩

/-! ### Properties and connections -/

theorem throughout_property (h : e.kind = .property ∧ e.IsLeaf (.property valueRequired)) :
    (e.property valueRequired).Throughout e.Makes := by
  have hname : .name ∈ (Construct.property valueRequired).required := by
    cases valueRequired <;> decide
  refine ⟨makes_parametersOf (places_nameBy h.2.tag hname ?_) .., trivial⟩
  rw [h.1]
  decide

theorem throughout_propertiesInside (h : e.HoldsProperties grammar valueRequired) :
    AllThroughout e.Makes (e.propertiesInside valueRequired) :=
  allThroughout_inside fun c hc => allThroughout_children fun _ hp =>
    throughout_property ((h.accepted c hc).2.inside.accepted _ hp)

theorem throughout_ldapConnection (h : e.kind = .ldap ∧ e.IsLdapConnection grammar) :
    e.ldapConnection.Throughout e.Makes := by
  refine ⟨makes_parametersOf (places_nameBy h.2.tag (by decide) ?_) .., throughout_propertiesInside h.2.inside⟩
  rw [h.1]
  decide

/-! ### Server identities -/

theorem throughout_keytab (h : e.kind = .keytab ∧ e.IsLeaf .keytab) :
    e.keytab.Throughout e.Makes := by
  refine ⟨makes_parametersOf (places_nameBy h.2.tag (by decide) ?_) .., trivial⟩
  rw [h.1]
  decide

theorem throughout_serverIdentity (h : e.IsServerIdentity grammar) :
    e.serverIdentity.Throughout e.Makes := by
  obtain ⟨hk, h⟩ | ⟨hk, h⟩ | ⟨hk, h⟩ := kind_of_isServerIdentity h
  · simp only [serverIdentity, hk]
    exact ⟨makes_parametersOf (.fixed (by decide) (by decide)) .., trivial⟩
  · simp only [serverIdentity, hk]
    exact ⟨⟨.fixed (by decide) (by decide), _, rfl⟩, trivial⟩
  · simp only [serverIdentity, hk]
    exact ⟨makes_empty (.fixed (by decide) (by decide)),
      allThroughout_children fun c hc => throughout_keytab (h.inside.accepted c hc)⟩

/-! ### Directories -/

theorem localName_ne_empty (kind : ElementName) : kind.localName ≠ "" := by
  cases kind <;> decide

/-- The kind of a cache is one of two words, and one of them where it is not told. -/
theorem throughout_cache (h : e.IsLeaf .cache) : e.cache.Throughout e.Makes := by
  refine ⟨makes_parametersOf (.fixed (by decide) ?_) .., trivial⟩
  cases ha : e.attribute? .kind with
  | none => decide
  | some value =>
    obtain ⟨d, hd, haccepts⟩ := h.tag.listed _ (Construct.mem_of_lookup ha)
    obtain rfl := Option.some.inj hd
    rintro rfl
    revert haccepts
    rw [AttributeDefinition.accepts_iff_of_isText (by decide)]
    decide

theorem throughout_caches (h : e.HoldsFilter grammar alternatives A) (hn : .cache ∉ alternatives) :
    AllThroughout e.Makes e.caches := by
  apply allThroughout_map
  intro c hc
  obtain ⟨hmem, hcache⟩ := List.mem_filter.1 hc
  cases h.children.accepted c hmem with
  | inl h => exact throughout_outward hmem (throughout_cache h.2)
  | inr h => exact absurd (eq_of_beq hcache ▸ h.1) hn

theorem throughout_ldapAuthentication (h : e.IsLdapAuthentication grammar) :
    e.ldapAuthentication.Throughout e.Makes :=
  ⟨⟨.fixed (by decide) (by decide), _, rfl⟩, throughout_caches h.inside (by decide)⟩

theorem throughout_directorySearch (h : e.IsDirectorySearch grammar) :
    e.directorySearch.Throughout e.Makes := by
  obtain ⟨hk, h⟩ | ⟨hk, h⟩ := kind_of_isDirectorySearch h
  · simp only [directorySearch, hk]
    exact ⟨⟨.fixed (by decide) (localName_ne_empty _), _, rfl⟩,
      throughout_caches h.inside (by decide)⟩
  · simp only [directorySearch, hk]
    exact ⟨⟨.fixed (by decide) (localName_ne_empty _), _, rfl⟩,
      throughout_caches h.inside (by decide)⟩

theorem throughout_ldapAuthorization (h : e.IsLdapAuthorization grammar) :
    e.ldapAuthorization.Throughout e.Makes :=
  ⟨makes_parametersOf (.fixed (by decide) (by decide)) ..,
    allThroughout_children fun c hc => throughout_directorySearch (h.inside.accepted c hc)⟩

/-! ### Authentication and authorization -/

theorem throughout_user (h : e.kind = .user ∧ e.IsUser grammar) : e.user.Throughout e.Makes := by
  refine ⟨⟨places_nameBy h.2.tag (by decide) ?_, _, rfl⟩, trivial⟩
  rw [h.1]
  decide

theorem throughout_authenticationSource (h : e.IsAuthenticationSource grammar) :
    e.authenticationSource.Throughout e.Makes := by
  have hfixed {value : String} (hv : value ≠ "") : e.Places ⟨"authentication", value⟩ :=
    .fixed (by decide) hv
  simp only [IsAuthenticationSource] at h
  split at h
  case h_5 hk =>
    simp only [authenticationSource, hk]
    exact throughout_ldapAuthentication h
  case h_7 hk =>
    simp only [authenticationSource, hk]
    exact ⟨makes_empty (hfixed (by decide)),
      allThroughout_children fun c hc => throughout_user (h.inside.accepted c hc)⟩
  case h_8 hk =>
    simp only [authenticationSource, hk]
    exact ⟨makes_parametersOf (hfixed (by decide)) .., throughout_propertiesInside h.inside⟩
  case h_9 => cases h
  all_goals
    next hk =>
    simp only [authenticationSource, hk]
    exact ⟨makes_parametersOf (hfixed (by decide)) .., trivial⟩

theorem throughout_authorizationSource (h : e.IsAuthorizationSource grammar) :
    e.authorizationSource.Throughout e.Makes := by
  obtain ⟨hk, h⟩ | ⟨hk, h⟩ | ⟨hk, h⟩ := kind_of_isAuthorizationSource h
  · simp only [authorizationSource, hk]
    exact ⟨makes_parametersOf (.fixed (by decide) (by decide)) .., trivial⟩
  · simp only [authorizationSource, hk]
    exact ⟨makes_parametersOf (.fixed (by decide) (by decide)) ..,
      throughout_propertiesInside h.inside⟩
  · simp only [authorizationSource, hk]
    exact throughout_ldapAuthorization h

/-! ### Security realms -/

theorem throughout_plugIn (h : e.kind = .plugIn ∧ e.IsLeaf .plugInModule) :
    e.plugIn.Throughout e.Makes := by
  refine ⟨makes_empty (places_nameBy h.2.tag (by decide) ?_), trivial⟩
  rw [h.1]
  decide

theorem throughout_realmPart (h : e.IsRealmPart grammar) : AllThroughout e.Makes e.realmPart := by
  obtain ⟨hk, h⟩ | ⟨hk, h⟩ | ⟨hk, h⟩ | ⟨hk, h⟩ := kind_of_isRealmPart h
  · simp only [realmPart, hk]
    exact allThroughout_children fun c hc => throughout_plugIn (h.inside.accepted c hc)
  · simp only [realmPart, hk]
    exact allThroughout_children fun c hc => throughout_serverIdentity (h.inside.accepted c hc)
  · simp only [realmPart, hk]
    exact allThroughout_children fun c hc => throughout_authenticationSource (h.inside.accepted c hc)
  · simp only [realmPart, hk]
    exact allThroughout_children fun c hc => throughout_authorizationSource (h.inside.accepted c hc)

theorem throughout_securityRealm (h : e.kind = .securityRealm ∧ e.IsSecurityRealm grammar) :
    e.securityRealm.Throughout e.Makes := by
  refine ⟨⟨places_nameBy h.2.tag (by decide) ?_, _, rfl⟩,
    allThroughout_inside fun c hc => throughout_realmPart (h.2.inside.accepted c hc)⟩
  rw [h.1]
  decide

/-! ### The whole element -/

/-- All resources of a management element are made from what stands in it. -/
theorem throughout_resources (h : e.IsManagement grammar) : AllThroughout e.Makes e.resources := by
  apply allThroughout_inside
  intro c hc
  obtain ⟨hk, h⟩ | ⟨hk, h⟩ | ⟨hk, h⟩ := kind_of_isManagementPart (h.inside.accepted c hc)
  · simp only [managementPart, hk]
    exact allThroughout_children fun r hr => throughout_securityRealm (h.inside.accepted r hr)
  · simp only [managementPart, hk]
    exact allThroughout_children fun r hr => throughout_ldapConnection (h.inside.accepted r hr)
  · simp only [managementPart, hk]
    exact ⟨⟨makes_parametersOf (.fixed (by decide) (by decide)) .., trivial⟩, trivial⟩

end Element

end ManagementScript
