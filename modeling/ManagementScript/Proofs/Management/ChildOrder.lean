import ManagementScript.Proofs.Management.Roles
import ManagementScript.Proofs.Schema.Permutation
import ManagementScript.Proofs.Schema.Typing
import ManagementScript.Proofs.Tree.Rearrangement

/-!
The order of the children of an element. Where the grammar does not ask for an order, the children may
stand in any: the commands of each of them stay together, in the order of the children, and all other
commands are the same.
-/

namespace ManagementScript

theorem Dictionary.setAll_flatMap_perm {f : β → List (String × α)} {xs ys : List β}
    (hp : xs.Perm ys)
    (hx : xs.Pairwise fun x y => List.Disjoint ((f x).map Prod.fst) ((f y).map Prod.fst))
    (d : Dictionary α) : d.setAll (xs.flatMap f) = d.setAll (ys.flatMap f) := by
  induction hp generalizing d with
  | nil => rfl
  | cons x _ ih =>
    rw [List.flatMap_cons, List.flatMap_cons, setAll_append, setAll_append]
    exact ih (List.pairwise_cons.1 hx).2 _
  | swap x y xs =>
    have hyx := (List.pairwise_cons.1 hx).1 x (List.mem_cons_self ..)
    simp only [List.flatMap_cons, setAll_append]
    rw [setAll_comm d fun z hz => hyx (List.mem_map_of_mem hz)]
  | trans hxy _ ih ih' =>
    exact (ih hx d).trans (ih' (hxy.pairwise hx fun h => List.disjoint_symm h) d)

namespace Element

variable {grammar : GrammarNamespace} {p p' e e' c c' : Element} {front back : List Node}

namespace Role

theorem filterKind_eq (e : Element) :
    e.filterKind = ((e.children.map kind).filter (· != .cache)).headD .unknown := by
  rw [filterKind, filters, List.filter_map]
  rfl

/-- In elements of these roles a filter stands behind everything else. -/
def endsInFilter : Role → Bool
  | ldapAuthentication | usernameToDn | groupSearch => true
  | _ => false

variable {r r' : Role}

theorem compatible_symm (hr : r.endsInFilter = false) (h : r.Compatible c d) : r.Compatible d c := by
  cases r with
  | ldapAuthentication | usernameToDn | groupSearch => cases hr
  | kerberosIdentity | user => exact h
  | securityRealms | outboundConnections | properties | plugIns | users => exact Ne.symm h
  | _ => exact ⟨h.1.symm, fun hd => h.2 hd.symm⟩

theorem names_disjoint : List.Disjoint Construct.engine.names (Construct.keyMaterial true).names := by
  unfold List.Disjoint
  decide

/-- Two children of one element add different parameters to it. -/
theorem disjoint_entriesOf (hr : r.endsInFilter = false) (hc : r.AcceptsChild grammar c)
    (hd : r.AcceptsChild grammar d) (hcd : r.Compatible c d) :
    List.Disjoint ((r.entriesOf c).map Prod.fst) ((r.entriesOf d).map Prod.fst) := by
  cases r with
  | ldapAuthentication | usernameToDn | groupSearch => cases hr
  | user => exact hcd.elim
  | groupToPrincipal => exact absurd (hc.1.trans hd.1.symm) hcd.1
  | securityRealm =>
    have hnone {c : Element} (hk : c.kind ≠ .authorization) : realmParameter c = [] := by
      simp only [realmParameter]
    simp only [entriesOf]
    by_cases hk : c.kind = .authorization
    · rw [hnone fun he => hcd.1 (hk.trans he.symm)]
      exact List.disjoint_nil_right _
    · rw [hnone hk]
      exact List.disjoint_nil_left _
  | ssl =>
    have hpart {c : Element} (h : c.IsSslPart) :
        c.kind = .engine ∧ sslPart c = Construct.engine.entries c ∨
          c.kind = .keystore ∧ sslPart c = (Construct.keyMaterial true).entries c := by
      simp only [IsSslPart] at h
      split at h
      · next hk => exact .inl ⟨hk, by simp only [sslPart, hk]⟩
      · next hk => exact .inr ⟨hk, by simp only [sslPart, hk]⟩
      · exact h.elim
    have hdisjoint {c d : Element} : List.Disjoint ((Construct.engine.entries c).map Prod.fst)
        (((Construct.keyMaterial true).entries d).map Prod.fst) := fun name hc hd =>
      names_disjoint (Construct.mem_names_of_entries hc) (Construct.mem_names_of_entries hd)
    simp only [entriesOf]
    obtain ⟨hk, hc⟩ | ⟨hk, hc⟩ := hpart hc
    · obtain ⟨hk', hd⟩ | ⟨_, hd⟩ := hpart hd
      · exact absurd (hk.trans hk'.symm) hcd.1
      · rw [hc, hd]
        exact hdisjoint
    · obtain ⟨_, hd⟩ | ⟨hk', hd⟩ := hpart hd
      · rw [hc, hd]
        exact List.disjoint_symm hdisjoint
      · exact absurd (hk.trans hk'.symm) hcd.1
  | _ => exact List.disjoint_nil_left _

/-- The kinds lead to an element of which the grammar does not ask an order of the children, unlike those
in which a filter stands behind a cache. -/
def AnyOrder (path : List ElementName) : Prop :=
  ∀ ending ∈ [[.authentication, .ldap], [.usernameToDn], [.groupSearch]], ¬ending <:+ path

instance : Decidable (AnyOrder path) :=
  inferInstanceAs (Decidable (∀ ending ∈ _, ¬ending <:+ path))

theorem Leads.last (h : Leads r path r') : path = [] ∧ r' = r ∨
    ∃ front k r'', path = front ++ [k] ∧ Leads r front r'' ∧ Contains r'' k r' := by
  induction h with
  | here => exact .inl ⟨rfl, rfl⟩
  | @inside r k r₁ path r' h _ ih =>
    obtain ⟨rfl, rfl⟩ | ⟨front, last, r'', rfl, hfront, hlast⟩ := ih
    · exact .inr ⟨[], k, r, rfl, .here r, h⟩
    · exact .inr ⟨k :: front, last, r'', rfl, .inside h hfront, hlast⟩

/-- From the management element such kinds lead to no element that ends in a filter. -/
theorem Leads.not_endsInFilter (h : Leads management path r) (hany : AnyOrder path) :
    r.endsInFilter = false := by
  obtain ⟨hldap, huser, hgroup⟩ : ¬[.authentication, .ldap] <:+ path ∧ ¬[.usernameToDn] <:+ path ∧
      ¬[.groupSearch] <:+ path := by simpa [AnyOrder] using hany
  obtain ⟨rfl, rfl⟩ | ⟨front, k, outer, rfl, hfront, hlast⟩ := h.last
  · rfl
  · cases hlast with
    | usernameToDn => exact absurd (List.suffix_append ..) huser
    | groupSearch => exact absurd (List.suffix_append ..) hgroup
    | ldapAuthentication =>
      obtain ⟨_, hne⟩ | ⟨front, k, _, rfl, _, hlast⟩ := hfront.last
      · cases hne
      · cases hlast
        rw [List.append_assoc] at hldap
        exact absurd (List.suffix_append ..) hldap
    | _ => rfl

/-! ### One level -/

/-- What the grammar asks of a start tag does not depend on what is inside. -/
theorem tag_congr (htag : e' = { e with content := e'.content })
    (h : r.construct?.elim (e.attributes = []) (·.Accepts e)) :
    r.construct?.elim (e'.attributes = []) (·.Accepts e') := by
  rw [htag]
  cases hc : r.construct? with
  | none =>
    rw [hc] at h
    exact h
  | some construct =>
    rw [hc] at h
    exact ⟨h.toAcceptsNamed, h.unlabelled⟩

/-- An element that is in the place of another one is accepted like it, and gives the same resource,
except for what is below it. -/
structure Keeps (grammar : GrammarNamespace) (r : Role) (e e' : Element) : Prop where
  is : r.Is grammar e'
  place : r.place? e' = r.place? e
  parameters : r.parameters e' = r.parameters e
  entries : ∀ outer, Contains outer e.kind r → outer.entriesOf e' = outer.entriesOf e

/-- An element adds no other parameters to what it belongs to. -/
theorem entriesOf_eq (htag : e' = { e with content := e'.content })
    (hinside : r' = groupToPrincipal →
      e'.children.flatMap r'.entriesOf = e.children.flatMap r'.entriesOf)
    (h : Contains r e.kind r') : r.entriesOf e' = r.entriesOf e := by
  generalize hk : e.kind = k at h
  cases h with
  | groupToPrincipal =>
    have hk' : e'.kind = .groupToPrincipal := by rw [htag]; exact hk
    have hsame := hinside rfl
    simp only [entriesOf] at hsame
    simp only [entriesOf, groupFilter, hk, hk', hsame]
    rw [htag]
    rfl
  | _ =>
    rw [htag]
    rfl

/-- Children may change places. -/
theorem keeps_of_reorders (hr : r.endsInFilter = false) (h : e.Reorders e') (he : r.Is grammar e) :
    r.Keeps grammar e e' := by
  obtain ⟨htag, hchildren, hrequired⟩ := is_iff.1 he
  have hdisjoint : e.children.Pairwise fun c d =>
      List.Disjoint ((r.entriesOf c).map Prod.fst) ((r.entriesOf d).map Prod.fst) :=
    hchildren.compatible.imp_of_mem fun hc hd hcd => disjoint_entriesOf hr
      (hchildren.accepted _ hc) (hchildren.accepted _ hd) hcd
  refine ⟨is_iff.2 ⟨tag_congr h.tag htag,
    hchildren.perm (fun c d => compatible_symm hr) h.children h.texts, ?_⟩, ?_, ?_, ?_⟩
  · intro kinds hkinds
    obtain ⟨c, hc, hk⟩ := hrequired kinds hkinds
    exact ⟨c, h.children.mem_iff.2 hc, hk⟩
  · rw [h.tag]
    cases r with
    | usernameToDn | groupSearch => cases hr
    | plugInSource withMechanism => cases withMechanism <;> rfl
    | _ => rfl
  · have hown : (r.construct?.map (·.entries e')).getD [] = (r.construct?.map (·.entries e)).getD [] := by
      rw [h.tag]
      rfl
    rw [parameters, parameters, hown]
    have hperm := Dictionary.setAll_flatMap_perm h.children.symm hdisjoint
    exact (Dictionary.setAll_append _ _ _).trans ((hperm _).symm.trans
      (Dictionary.setAll_append _ _ _).symm)
  · intro outer houter
    refine entriesOf_eq h.tag ?_ houter
    rintro rfl
    -- There is one child only, so it stays where it is.
    rcases hkids : e.children with _ | ⟨c, _ | ⟨d, rest⟩⟩
    · exact absurd hkids h.some
    · have hperm := h.children
      rw [hkids] at hperm
      rw [List.perm_singleton.1 hperm]
    · have hcd : c.kind ≠ d.kind :=
        ((List.pairwise_cons.1 (hkids ▸ hchildren.compatible)).1 d (List.mem_cons_self ..)).1
      have hkind {x : Element} (hx : x ∈ c :: d :: rest) : x.kind = .membershipFilter :=
        (hchildren.accepted x (hkids ▸ hx)).1
      exact absurd ((hkind (by simp)).trans (hkind (by simp)).symm) hcd

/-- A child may be replaced by one like it. -/
theorem keeps_of_replace (he : r.Is grammar e) (hc : e.content = front ++ c.node :: back)
    (htag : c' = { c with content := c'.content }) (hr : Contains r c.kind r')
    (h : r'.Keeps grammar c c') :
    r.Keeps grammar e { e with content := front ++ c'.node :: back } := by
  obtain ⟨hstart, hchildren, hrequired⟩ := is_iff.1 he
  let e' : Element := { e with content := front ++ c'.node :: back }
  have hold : e.children = front.filterMap Node.element? ++ c :: back.filterMap Node.element? :=
    children_of_content hc
  have hnew : e'.children = front.filterMap Node.element? ++ c' :: back.filterMap Node.element? :=
    children_of_content rfl
  have hkind : c'.kind = c.kind := by
    rw [htag]
    rfl
  have hkinds : e'.children.map kind = e.children.map kind := by
    rw [hold, hnew, List.map_append, List.map_append, List.map_cons, List.map_cons, hkind]
  have hcompatible (d : Element) :
      (r.Compatible c d → r.Compatible c' d) ∧ (r.Compatible d c → r.Compatible d c') := by
    rw [htag]
    cases r <;> exact ⟨id, id⟩
  refine ⟨is_iff.2 ⟨tag_congr rfl hstart, ?_, ?_⟩, ?_, ?_, ?_⟩
  · refine hchildren.replace hc htag hcompatible (Contains.acceptsChild ?_ h.is)
    rw [hkind]
    exact hr
  · intro kinds hmem
    obtain ⟨d, hd, hk⟩ := hrequired kinds hmem
    obtain ⟨d', hd', he⟩ := List.mem_map.1 (hkinds ▸ List.mem_map_of_mem hd)
    exact ⟨d', hd', he ▸ hk⟩
  · have hfilter : e'.filterKind = e.filterKind := by
      rw [filterKind_eq, filterKind_eq, hkinds]
    cases r with
    | usernameToDn | groupSearch =>
      change place? _ e' = _
      simp only [place?, hfilter]
    | plugInSource withMechanism => cases withMechanism <;> rfl
    | _ => rfl
  · have hadded : e'.children.flatMap r.entriesOf = e.children.flatMap r.entriesOf := by
      rw [hold, hnew, List.flatMap_append, List.flatMap_append, List.flatMap_cons, List.flatMap_cons,
        h.entries r hr]
    exact congrArg (fun added => Dictionary.ofList ((r.construct?.map (·.entries e)).getD [] ++ added))
      hadded
  · intro outer houter
    refine entriesOf_eq rfl ?_ houter
    rintro rfl
    cases hr

/-! ### Every level -/

/-- The commands of a child of an element that becomes something below the owner. -/
def block (r : Role) (owner : Address) (c : Element) : List Command :=
  Resource.commandsOfAll owner (r.resourcesOf c)

/-- Below the owner the commands are those of the children of `p`, in their order, with others before and
behind them; with `p'` in its place they are the commands of the children of `p'`, with the same others. -/
def Permutes (r : Role) (p p' : Element) (commands commands' : List Command) : Prop :=
  ∃ owner before behind, commands = before ++ p.children.flatMap (r.block owner) ++ behind ∧
    commands' = before ++ p'.children.flatMap (r.block owner) ++ behind

theorem Permutes.around {commands commands' : List Command} (h : r.Permutes p p' commands commands')
    (front back : List Command) :
    r.Permutes p p' (front ++ commands ++ back) (front ++ commands' ++ back) := by
  obtain ⟨owner, before, behind, rfl, rfl⟩ := h
  exact ⟨owner, front ++ before, behind ++ back, by simp, by simp⟩

theorem Permutes.length_eq {commands commands' : List Command} (hp : p.Reorders p')
    (h : r.Permutes p p' commands commands') : commands'.length = commands.length := by
  obtain ⟨owner, before, behind, rfl, rfl⟩ := h
  have hblocks := (hp.children.flatMap_right (r.block owner)).length_eq
  simp only [List.length_append, hblocks]

/-- The resources of an element give the same commands but for those that the children below give. -/
theorem Keeps.permutes {r r'' : Role} (h : r.Keeps grammar e e')
    (hinside : ∀ owner, r''.Permutes p p'
      (Resource.commandsOfAll owner (e.children.flatMap r.resourcesOf))
      (Resource.commandsOfAll owner (e'.children.flatMap r.resourcesOf))) (owner : Address) :
    r''.Permutes p p' (Resource.commandsOfAll owner (r.resources e))
      (Resource.commandsOfAll owner (r.resources e')) := by
  rw [resources, resources, h.place, h.parameters]
  cases r.place? e with
  | none => exact hinside owner
  | some place =>
    have hcommands (kids : List Resource) :
        Resource.commandsOfAll owner [⟨place, r.parameters e, kids⟩] =
          [⟨owner.append place.key place.value, r.parameters e⟩] ++
            Resource.commandsOfAll (owner.append place.key place.value) kids ++ [] := by
      rw [Resource.commandsOfAll_cons, Resource.commandsOfAll_nil]
      rfl
    rw [hcommands, hcommands]
    exact (hinside _).around _ _

end Role

open Role (Contains Leads)

/-- An element is accepted and keeps its resource when the children of an element inside it change
places, as long as the grammar does not ask for their order. -/
theorem Differs.keeps {r : Role} (h : Differs p p' path e e') (hp : p.Reorders p')
    (he : r.Is grammar e) (hfree : ∀ r', Leads r path r' → r'.endsInFilter = false) :
    r.Keeps grammar e e' ∧ ∃ r', Leads r path r' ∧ ∀ owner, r'.Permutes p p'
      (Resource.commandsOfAll owner (e.children.flatMap r.resourcesOf))
      (Resource.commandsOfAll owner (e'.children.flatMap r.resourcesOf)) := by
  induction h generalizing r with
  | here =>
    refine ⟨Role.keeps_of_reorders (hfree r (.here r)) hp he, r, .here r, fun owner => ?_⟩
    refine ⟨owner, [], [], ?_, ?_⟩
    · rw [Resource.commandsOfAll_flatMap, List.nil_append, List.append_nil]
      rfl
    · rw [Resource.commandsOfAll_flatMap, List.nil_append, List.append_nil]
      rfl
  | @inside front back path c c' e hc h ih =>
    have hchild : c ∈ e.children := by
      rw [children_of_content hc]
      simp
    obtain ⟨r', hr, hc'⟩ := Role.exists_contains (h.children_ne_nil hp)
      ((Role.is_iff.1 he).children.accepted c hchild)
    obtain ⟨hkeeps, r'', hl, hpermutes⟩ := ih hc' fun _ hl => hfree _ (.inside hr hl)
    refine ⟨Role.keeps_of_replace he hc (h.tag hp) hr hkeeps, r'', .inside hr hl, fun owner => ?_⟩
    have hr' : Contains r c'.kind r' := by
      rw [h.tag hp]
      exact hr
    have hcommands {x : Element} {content : List Node} (hx : Contains r x.kind r')
        (hx' : r'.Is grammar x) (hcontent : content = front ++ x.node :: back) :
        Resource.commandsOfAll owner (children { e with content := content } |>.flatMap r.resourcesOf) =
          Resource.commandsOfAll owner ((front.filterMap Node.element?).flatMap r.resourcesOf) ++
            Resource.commandsOfAll owner (r'.resources x) ++
              Resource.commandsOfAll owner ((back.filterMap Node.element?).flatMap r.resourcesOf) := by
      rw [children_of_content hcontent, List.flatMap_append, List.flatMap_cons, hx.resourcesOf_eq hx',
        Resource.commandsOfAll_append, Resource.commandsOfAll_append, List.append_assoc]
    rw [hcommands hr' hkeeps.is rfl, hcommands hr hc' hc]
    exact (hkeeps.permutes hpermutes owner).around _ _

end Element

end ManagementScript
