import ManagementScript.Proofs.Management.ChildOrder
import ManagementScript.Proofs.Tree.Respacing

/-!
White space in a management element. Elements of the grammar hold nothing but white space between their
children, and a password is one text; so with other white space between its tags a management element is
accepted like the first one, and becomes the same resources.
-/

namespace ManagementScript.Element

variable {grammar : GrammarNamespace} {c c' e e' : Element} {cs cs' : List Element}

/-- The element without what is inside. -/
def bare (e : Element) : Element := { e with content := [] }

theorem bare_eq (htag : e' = { e with content := e'.content }) : e'.bare = e.bare :=
  (congrArg bare htag).trans rfl

namespace Role

variable {r : Role}

/-- In the place of the children stand others with the same tags, which are accepted and become the same
together. -/
structure Replaces (grammar : GrammarNamespace) (r : Role) (cs cs' : List Element) : Prop where
  tags : cs'.map bare = cs.map bare
  accepted : ∀ c ∈ cs', r.AcceptsChild grammar c
  entries : cs'.flatMap r.entriesOf = cs.flatMap r.entriesOf
  resources : cs'.flatMap r.resourcesOf = cs.flatMap r.resourcesOf

theorem replaces_nil : r.Replaces grammar [] [] := ⟨rfl, List.forall_mem_nil _, rfl, rfl⟩

theorem Replaces.cons (h : r.Replaces grammar cs cs') (htag : c' = { c with content := c'.content })
    (ha : r.AcceptsChild grammar c') (he : r.entriesOf c' = r.entriesOf c)
    (hr : r.resourcesOf c' = r.resourcesOf c) : r.Replaces grammar (c :: cs) (c' :: cs') where
  tags := by rw [List.map_cons, List.map_cons, bare_eq htag, h.tags]
  accepted := List.forall_mem_cons.2 ⟨ha, h.accepted⟩
  entries := by rw [List.flatMap_cons, List.flatMap_cons, he, h.entries]
  resources := by rw [List.flatMap_cons, List.flatMap_cons, hr, h.resources]

theorem Replaces.kinds (h : r.Replaces grammar cs cs') : cs'.map kind = cs.map kind := by
  have hkinds (cs : List Element) : cs.map kind = (cs.map bare).map kind := by
    rw [List.map_map]
    rfl
  rw [hkinds, h.tags, ← hkinds]

theorem compatible_bare : r.Compatible c.bare e.bare ↔ r.Compatible c e := by
  cases r <;> exact Iff.rfl

theorem holds_of_replaces (h : e.Holds grammar r.Compatible (r.AcceptsChild grammar))
    (hb : e.IsBlank → e'.IsBlank) (hc : r.Replaces grammar e.children e'.children) :
    e'.Holds grammar r.Compatible (r.AcceptsChild grammar) where
  blank := hb h.blank
  namespaced := by
    have huris (cs : List Element) : (∀ c ∈ cs, c.namespaceUri = some grammar.uri) ↔
        ∀ c ∈ cs.map bare, c.namespaceUri = some grammar.uri := by
      rw [List.forall_mem_map]
      rfl
    rw [huris, hc.tags, ← huris]
    exact h.namespaced
  compatible := by
    have hpairs (cs : List Element) :
        cs.Pairwise r.Compatible ↔ (cs.map bare).Pairwise r.Compatible := by
      simp only [List.pairwise_map, compatible_bare]
    rw [hpairs, hc.tags, ← hpairs]
    exact h.compatible
  accepted := hc.accepted

/-- An element is accepted with such children inside, and gives the same resources. -/
theorem keeps_of_replaces (htag : e' = { e with content := e'.content })
    (hb : e.IsBlank → e'.IsBlank) (hc : r.Replaces grammar e.children e'.children)
    (he : r.Is grammar e) : r.Keeps grammar e e' ∧ r.resources e' = r.resources e := by
  obtain ⟨hstart, hchildren, hrequired⟩ := is_iff.1 he
  have hfilter : e'.filterKind = e.filterKind := by
    rw [filterKind_eq, filterKind_eq, hc.kinds]
  have hplace : r.place? e' = r.place? e := by
    cases r with
    | usernameToDn | groupSearch => simp only [place?, hfilter]
    | plugInSource withMechanism => cases withMechanism <;> rfl
    | _ =>
      rw [htag]
      rfl
  have hparameters : r.parameters e' = r.parameters e := by
    rw [parameters, parameters, hc.entries, htag]
    rfl
  refine ⟨⟨is_iff.2 ⟨tag_congr htag hstart, holds_of_replaces hchildren hb hc, ?_⟩, hplace,
    hparameters, ?_⟩, ?_⟩
  · intro kinds hmem
    obtain ⟨d, hd, hk⟩ := hrequired kinds hmem
    obtain ⟨d', hd', he⟩ := List.mem_map.1 (hc.kinds ▸ List.mem_map_of_mem hd)
    exact ⟨d', hd', he ▸ hk⟩
  · intro outer houter
    exact entriesOf_eq htag (fun _ => hc.entries) houter
  · rw [resources, resources, hplace, hparameters, hc.resources]

end Role

open Role (Contains Replaces)

/-- A child with other white space between the tags inside is accepted in the place of the child, and
becomes the same, if this holds of its own children. -/
theorem Respaced.accepted {r : Role} (h : c.Respaced c') (ha : r.AcceptsChild grammar c)
    (hin : ∀ r' : Role, (∀ d ∈ c.children, r'.AcceptsChild grammar d) →
      r'.Replaces grammar c.children c'.children) :
    r.AcceptsChild grammar c' ∧ r.entriesOf c' = r.entriesOf c ∧ r.resourcesOf c' = r.resourcesOf c := by
  have hkind : c'.kind = c.kind := by
    rw [h.tag]
    rfl
  have hnone (hc : c.children = []) : c'.children = [] := by
    have htags := (hin r (hc ▸ List.forall_mem_nil _)).tags
    rw [hc] at htags
    exact List.map_eq_nil_iff.1 htags
  by_cases hr : r = .user
  · subst hr
    obtain ⟨hk, hattributes, hchildren, htext⟩ := ha
    have htrimmed : c'.trimmedText = c.trimmedText := congrArg Text.trimmed (h.text_eq hk)
    refine ⟨⟨hkind.trans hk, ?_, hnone hchildren, htrimmed ▸ htext⟩, ?_, rfl⟩
    · rw [h.tag]
      exact hattributes
    · simp only [Role.entriesOf, htrimmed]
  cases Role.acceptance ha with
  | role hcontains hc =>
    have hreplaces := hin _ (Role.is_iff.1 hc).children.accepted
    obtain ⟨hkeeps, hresources⟩ := Role.keeps_of_replaces h.tag h.blank hreplaces hc
    have hcontains' : Contains r c'.kind _ := hkind ▸ hcontains
    refine ⟨hcontains'.acceptsChild hkeeps.is, hkeeps.entries r hcontains, ?_⟩
    rw [hcontains'.resourcesOf_eq hkeeps.is, hresources, hcontains.resourcesOf_eq hc]
  | empty hempty =>
    obtain ⟨⟨hblank, hchildren⟩, haccepts⟩ := hempty
    have hchildren' := hnone hchildren
    have hsame := hchildren'.trans hchildren.symm
    have haccepted := haccepts c'.content
    rw [← h.tag] at haccepted
    exact ⟨haccepted ⟨h.blank hblank, hchildren'⟩, Role.entriesOf_congr hr h.tag hsame,
      Role.resourcesOf_congr h.tag hsame⟩
  | password huser => exact absurd huser hr

/-- So the children of an element may stand in the place of its children with other white space between
their tags, and between those inside. -/
theorem replaces_of_respaced {name : ElementName} {nodes nodes' : List Node}
    (h : Node.Respaced name nodes nodes') (r : Role)
    (ha : ∀ c ∈ nodes.filterMap Node.element?, r.AcceptsChild grammar c) :
    r.Replaces grammar (nodes.filterMap Node.element?) (nodes'.filterMap Node.element?) := by
  induction h generalizing r with
  | nil => exact Role.replaces_nil
  | texts _ _ _ ih =>
    rw [Node.filterMap_element?_texts] at ha ⊢
    rw [Node.filterMap_element?_texts]
    exact ih r ha
  | @element tagName inside inside' _ _ _ uri attributes hinside _ ihin ih =>
    obtain ⟨hc, hcs⟩ := List.forall_mem_cons.1 ha
    have hrespaced : Respaced ⟨uri, tagName, attributes, inside⟩ ⟨uri, tagName, attributes, inside'⟩ :=
      ⟨rfl, hinside⟩
    obtain ⟨haccepted, hentries, hresources⟩ := hrespaced.accepted hc ihin
    exact (ih r hcs).cons hrespaced.tag haccepted hentries hresources

/-- A management element is accepted with other white space between its tags, and gives the same
commands. -/
theorem Respaced.isManagement (h : e.Respaced e') (he : e.IsManagement grammar) :
    e'.IsManagement grammar ∧ ∀ base, e'.commands base = e.commands base := by
  have hrole : Role.Is grammar .management e := he
  have hreplaces := replaces_of_respaced h.inside .management (Role.is_iff.1 hrole).children.accepted
  obtain ⟨hkeeps, _⟩ := Role.keeps_of_replaces h.tag h.blank hreplaces hrole
  refine ⟨hkeeps.is, fun base => ?_⟩
  exact congrArg (Resource.commandsOfAll _) hreplaces.resources

end ManagementScript.Element
