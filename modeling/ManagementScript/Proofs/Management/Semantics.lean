import ManagementScript.Proofs.Compilation.Management

/-!
The compilation of a management element, read from tag to tag, agrees with the translation of its
tree.
-/

namespace ManagementScript.Compilation

/-- Where a tree stands before the cursor, the compilation succeeds on the trees of the grammar for
whose commands there is room, and it adds these commands. -/
theorem management_translates_tree (grammar : GrammarNamespace) (base : Address)
    {s : CompilationState Unit} {e : Element} {d : Cursor} (h : s.cursor.Spans e d) :
    ((∃ s', management grammar .declining base false s = (.ok (), s')) ↔
      e.IsManagement grammar ∧ s.script.size + (e.commands base).length ≤ Limits.commands) ∧
    ∀ s', management grammar .declining base false s = (.ok (), s') →
      s'.cursor = d ∧ s'.script.toList = s.script.toList ++ e.commands base := by
  have hok {s' : CompilationState Unit} :
      management grammar .declining base false s = (.ok (), s') ↔ e.IsManagement grammar ∧
        s.script.size + (e.commands base).length ≤ Limits.commands ∧
        s.After d ⟨e.commands base, managementReports grammar base e⟩ s' := by
    rw [management_eq_ok_iff]
    apply Iff.intro
    · intro hm
      obtain ⟨e', d', h', ha, _, hroom, hs⟩ := hm
      obtain ⟨rfl, rfl⟩ := h.unique h'
      exact ⟨ha, hroom, hs⟩
    · intro hm
      exact ⟨e, d, h, hm.1, rfl, hm.2⟩
  apply And.intro
  · apply Iff.intro
    · intro hm
      obtain ⟨s', hm⟩ := hm
      obtain ⟨ha, hroom, _⟩ := hok.1 hm
      exact ⟨ha, hroom⟩
    · intro hm
      obtain ⟨ha, hroom⟩ := hm
      obtain ⟨s', hs⟩ := CompilationState.exists_after (fun _ => hroom) d (managementReports grammar base e)
      exact ⟨s', hok.2 ⟨ha, hroom, hs⟩⟩
  · intro s' hm
    obtain ⟨_, _, hs⟩ := hok.1 hm
    exact ⟨hs.cursor, hs.script.toList⟩

/-! ### A realm with a secret -/

namespace RealmSample

def element (name : String) (attributes : List Attribute) (content : List Node) : Element :=
  ⟨some GrammarNamespace.domain42.uri, name, attributes, content⟩

def node (e : Element) : Node := .element e.namespaceUri e.localName e.attributes e.content

def secret : Element := element "secret" [⟨none, "value", "s"⟩] []

def identities : Element := element "server-identities" [] [node secret]

def realm : Element := element "security-realm" [⟨none, "name", "r"⟩] [node identities]

def realms : Element := element "security-realms" [] [node realm]

def management : Element := element "management" [] [node realms]

/-- The tags of an element that has the written attributes. -/
def tags (name written : String) (inner : List Xml.Event) : List Xml.Event :=
  .start 0 ⟨.ok (some GrammarNamespace.domain42.uri), name⟩ ⟨[], written.toList⟩ [] :: inner ++
    [.finish 0 ⟨.ok none, name⟩]

/-- A cursor on the start tag of the innermost open element. -/
def cursor (opened : List String) (attributes : List Attribute) (pending : List Xml.Event) : Cursor :=
  ⟨pending, opened, opened.headD "", some GrammarNamespace.domain42.uri, attributes,
    (LineIndex.ofString "").positionAt 0, .ofString ""⟩

def state (script : Script) : CompilationState Unit where
  cursor := cursor ["management"] [] <|
    tags "security-realms" "" (tags "security-realm" " name='r'"
      (tags "server-identities" "" (tags "secret" " value='s'" []))) ++
    [.finish 0 ⟨.ok none, "management"⟩]
  script := script
  delegate := ()
  events := #[]

theorem spans (script : Script) : ∃ d, (state script).cursor.Spans management d := by
  apply Exists.intro
  apply Cursor.Spans.mk rfl
  apply Cursor.Encloses.element (i := cursor ["security-realms", "management"] [] _) rfl (by rfl)
  · apply Cursor.Encloses.element rfl (by rfl)
      (i := cursor ["security-realm", "security-realms", "management"] realm.attributes _)
    · apply Cursor.Encloses.element rfl (by rfl)
        (i := cursor ["server-identities", "security-realm", "security-realms", "management"] [] _)
      · apply Cursor.Encloses.element rfl (by rfl) (i := cursor
          ["secret", "server-identities", "security-realm", "security-realms", "management"]
          secret.attributes _)
        · exact .finish rfl (by rfl)
        · exact .finish rfl (by rfl)
      · exact .finish rfl (by rfl)
    · exact .finish rfl (by rfl)
  · exact .finish rfl (by rfl)

theorem holds_of_only {e c : Element} (hc : e.children = [c]) (ht : e.texts = [])
    (hn : c.namespaceUri = some grammar.uri) (ha : accepts c) :
    e.Holds grammar compatible accepts where
  blank := by simp [Element.IsBlank, ht]
  namespaced := by simp [hc, hn]
  compatible := by simp [hc]
  accepted := by simp [hc, ha]

theorem accepts_of_only {c : Construct} {e : Element} (he : e.attributes = [⟨none, name, value⟩])
    (hd : c.definition? (.ofString name) = some d) (ha : d.Accepts value)
    (hc : c.required = [.ofString name]) : c.Accepts e := by
  have hn : e.named = [(.ofString name, value)] := by
    rw [Element.named, he]
    rfl
  refine ⟨⟨?_, ?_⟩, ?_⟩
  · simp [hn, hd, ha]
  · simp [hn, hc]
  · simp [he]

theorem isManagement : management.IsManagement .domain42 := by
  refine ⟨rfl, holds_of_only (c := realms) rfl rfl rfl ?_⟩
  have hk : realms.kind = .securityRealms := by decide
  simp only [Element.IsManagementPart, hk]
  refine ⟨rfl, holds_of_only (c := realm) rfl rfl rfl ⟨by decide, ?_⟩⟩
  have hname : (AttributeDefinition.string "name").Accepts "r" :=
    (AttributeDefinition.accepts_iff_of_isText rfl).2 (by decide)
  refine ⟨accepts_of_only rfl (by decide) hname (by decide), ?_⟩
  refine holds_of_only (c := identities) rfl rfl rfl ?_
  have hk : identities.kind = .serverIdentities := by decide
  simp only [Element.IsRealmPart, hk]
  refine ⟨rfl, holds_of_only (c := secret) rfl rfl rfl ?_⟩
  have hk : secret.kind = .secret := by decide
  simp only [Element.IsServerIdentity, hk]
  have hvalue : (AttributeDefinition.string "value").Accepts "s" :=
    (AttributeDefinition.accepts_iff_of_isText rfl).2 (by decide)
  refine ⟨accepts_of_only rfl (by decide) hvalue (by decide), ?_⟩
  simp [Element.IsEmpty, Element.IsBlank, Element.texts, Element.children, secret, element]

theorem compiles : ∃ s',
    Compilation.management .domain42 .declining .root false (state .empty) = (.ok (), s') := by
  obtain ⟨d, h⟩ := spans .empty
  have hroom : (state .empty).script.size + (management.commands .root).length ≤ Limits.commands := by
    decide
  obtain ⟨s', hs⟩ := CompilationState.exists_after (fun _ => hroom) d
    (managementReports .domain42 .root management)
  exact ⟨s', management_eq_ok_iff.2 ⟨management, d, h, isManagement, rfl, hroom, hs⟩⟩

end RealmSample

theorem management_translates_realm : ∃ d s', (RealmSample.state .empty).cursor.Spans
      RealmSample.management d ∧
    management .domain42 .declining .root false (RealmSample.state .empty) = (.ok (), s') ∧
    s'.script.toList = RealmSample.management.commands .root := by
  obtain ⟨d, h⟩ := RealmSample.spans .empty
  have ht := management_translates_tree .domain42 .root h
  have hroom : (RealmSample.state .empty).script.size +
      (RealmSample.management.commands .root).length ≤ Limits.commands := by decide
  obtain ⟨s', hs⟩ := ht.1.2 ⟨RealmSample.isManagement, hroom⟩
  exact ⟨d, s', h, hs, (ht.2 s' hs).2⟩

end ManagementScript.Compilation
