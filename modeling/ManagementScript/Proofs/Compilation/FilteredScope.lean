import ManagementScript.Compilation.Directory
import ManagementScript.Proofs.Compilation.FilterScope
import ManagementScript.Proofs.Compilation.Identities

/-!
The scopes of the grammar that hold one filter. They are compiled in one way and differ in the attributes
of their start tags, in the filters that they may hold and in where their commands go.
-/

namespace ManagementScript

/-- The scopes that hold one filter, with a cache before it or not. -/
inductive FilteredScope where
  | authentication
  | userSearch
  | groupSearch

namespace FilteredScope

open Compilation

variable {δ : Type} (grammar : GrammarNamespace) (owner : Address)

/-- The attributes of the start tag. -/
def construct : FilteredScope → Construct
  | authentication => .ldapAuthentication
  | userSearch => .usernameToDn
  | groupSearch => .groupSearch

/-- The filters, in the order in which they are listed. -/
def alternatives : FilteredScope → List ElementName
  | authentication => Element.authenticationFilters
  | userSearch => Element.userFilters
  | groupSearch => Element.groupFilters

/-- What is accepted as a filter. -/
def accepts : FilteredScope → Element → Prop
  | authentication => fun c => c.IsLeaf (.authenticationFilter (c.kind == .advancedFilter))
  | userSearch => Element.IsUserFilter
  | groupSearch => Element.IsGroupFilter grammar

/-- The parameters that a filter becomes. -/
def entries : FilteredScope → Element → List (String × Value)
  | authentication => fun c => (Construct.authenticationFilter (c.kind == .advancedFilter)).entries c
  | userSearch => Element.userFilter
  | groupSearch => Element.groupFilter

/-- Where the command of the scope goes. -/
def address (filter : ElementName) : FilteredScope → Address
  | authentication => owner.append "authentication" "ldap"
  | userSearch => owner.append "username-to-dn" filter.localName
  | groupSearch => owner.append "group-search" filter.localName

def compile : FilteredScope → Compilation δ Unit
  | authentication => ldapAuthentication grammar owner
  | userSearch => usernameToDn grammar owner
  | groupSearch => Compilation.groupSearch grammar owner

/-- How a filter is read. -/
def readFilter : FilteredScope → Parameters → ElementName → Compilation δ Parameters
  | authentication => fun ps filter => partOf (.authenticationFilter (filter == .advancedFilter)) ps
  | userSearch => fun ps filter => do
    match filter with
    | .usernameIsDn =>
      requireNoAttributes
      requireNoContent
      return ps
    | _ => partOf (.userSearch (filter == .advancedFilter)) ps
  | groupSearch => fun ps filter =>
    match filter with
    | .groupToPrincipal => groupToPrincipal grammar ps
    | _ => partOf .principalToGroup ps

theorem compile_eq (k : FilteredScope) : (k.compile grammar owner : Compilation δ Unit) = (do
    let ps ← readParameters k.construct .empty
    let (filter, cache, ps) ← filterScope grammar k.alternatives ps (k.readFilter grammar)
    pushWithCache ⟨k.address owner filter, ps⟩ cache) := by
  cases k <;> rfl

theorem regular_construct (k : FilteredScope) : k.construct.Regular := by
  cases k <;> decide

theorem cache_notMem_alternatives (k : FilteredScope) : ElementName.cache ∉ k.alternatives := by
  cases k <;> decide

end FilteredScope

namespace Compilation

variable {δ : Type} (grammar : GrammarNamespace)

theorem reads_groupToPrincipal (ps : Parameters) :
    Reads (groupToPrincipal grammar ps : Compilation δ Parameters) (·.IsGroupToPrincipal grammar)
      (fun e => ps.setAll (Construct.groupToPrincipal.entries e ++
        e.children.flatMap Construct.membershipFilter.entries)) fun _ => .nil := by
  have hc : Construct.groupToPrincipal.Regular := by decide
  have hlists : ∀ x ∈ Construct.groupToPrincipal.parameters, x.2.kind ≠ .list := by
    decide
  have hfilter : Construct.membershipFilter.Regular := by decide
  have hfilterLists : ∀ x ∈ Construct.membershipFilter.parameters, x.2.kind ≠ .list := by
    decide
  apply Reads.congr
  · apply Reads.readParameters_bind hc (Construct.fresh_of_noLists hlists ps)
    intro t
    apply Reads.bind
    · apply reads_parts grammar Construct.membershipFilter.entries
        (A := fun c => c.kind = .membershipFilter ∧ c.IsLeaf .membershipFilter)
      intro past element
      cases element with
      | membershipFilter =>
        exact readsAs_part hfilter (fun _ => Construct.fresh_of_noLists hfilterLists _)
          (fun e he => by simp only [he, true_and]) fun _ _ => rfl
      | _ => exact readsAs_unexpectedElement fun e he => by simp [he]
    · intro e
      exact adds_pure _
  · intro e _
    exact ⟨fun h => ⟨h.1, h.2.1⟩, fun h => ⟨h.tag, h.inside, trivial⟩⟩
  · intro e _
    exact (Dictionary.setAll_append ..).symm
  · intro e _
    rfl

/-- What a filter of one of the constructs with a flag is read as, with the flag of its kind. -/
theorem readsAs_flagged {construct : Bool → Construct} {flag : ElementName → Bool}
    (hc : ∀ b, (construct b).Regular) (hlists : ∀ b, ∀ x ∈ (construct b).parameters, x.2.kind ≠ .list)
    (ps : Parameters) (element : ElementName) :
    ReadsAs element (partOf (construct (flag element)) ps : Compilation δ Parameters)
      (fun c => c.IsLeaf (construct (flag c.kind)))
      (fun c => ps.setAll ((construct (flag c.kind)).entries c)) fun _ => .nil := by
  apply (reads_partOf (hc _) (Construct.fresh_of_noLists (hlists _) ps)).readsAs
  · intro e he
    rw [he]
  · intro e he _
    rw [← he]
  · intro e _ _
    rfl

end Compilation

namespace FilteredScope

open Compilation

variable {δ : Type} (grammar : GrammarNamespace) (owner : Address)

theorem readsAs_userFilter (ps : Parameters) (element : ElementName) (h : element ∈ Element.userFilters) :
    ReadsAs element (readFilter grammar userSearch ps element : Compilation δ Parameters)
      Element.IsUserFilter (fun e => ps.setAll e.userFilter) fun _ => .nil := by
  have hlists (advanced : Bool) :
      ∀ x ∈ (Construct.userSearch advanced).parameters, x.2.kind ≠ .list := by
    cases advanced <;> decide
  have hflagged := @readsAs_flagged δ _ (· == .advancedFilter) Construct.regular_userSearch hlists ps
  cases element with
  | usernameIsDn =>
    apply Reads.readsAs
    · apply Reads.requireNoAttributes_bind
      exact compiles_requireNoContent.bind fun _ => adds_pure ps
    · intro e he
      simp only [Element.IsUserFilter, he, and_true]
      exact ⟨fun h => ⟨h.1, h.2⟩, fun h => ⟨h.tag, h.inside⟩⟩
    · intro e he _
      simp only [Element.userFilter, he, Dictionary.setAll_nil]
    · intro e _ _
      rfl
  | usernameFilter | advancedFilter =>
    apply (hflagged _).congr
    · intro e he
      simp only [Element.IsUserFilter, he]
    · intro e he _
      simp only [Element.userFilter, he]
    · intro e _ _
      rfl
  | _ => exact absurd h (by decide)

theorem readsAs_groupFilter (ps : Parameters) (element : ElementName)
    (h : element ∈ Element.groupFilters) :
    ReadsAs element (readFilter grammar groupSearch ps element : Compilation δ Parameters)
      (Element.IsGroupFilter grammar) (fun e => ps.setAll e.groupFilter) fun _ => .nil := by
  have hfilter : Construct.principalToGroup.Regular := by decide
  have hlists : ∀ x ∈ Construct.principalToGroup.parameters, x.2.kind ≠ .list := by
    decide
  cases element with
  | groupToPrincipal =>
    apply (reads_groupToPrincipal grammar ps).readsAs
    · intro e he
      simp only [Element.IsGroupFilter, he]
    · intro e he _
      simp only [Element.groupFilter, he]
    · intro e _ _
      rfl
  | principalToGroup =>
    apply (reads_partOf hfilter (Construct.fresh_of_noLists hlists ps)).readsAs
    · intro e he
      simp only [Element.IsGroupFilter, he]
    · intro e he _
      simp only [Element.groupFilter, he]
    · intro e _ _
      rfl
  | _ => exact absurd h (by decide)

theorem readsAs_filter (k : FilteredScope) (ps : Parameters) (element : ElementName)
    (h : element ∈ k.alternatives) :
    ReadsAs element (k.readFilter grammar ps element : Compilation δ Parameters) (k.accepts grammar)
      (fun e => ps.setAll (k.entries e)) fun _ => .nil := by
  cases k with
  | authentication =>
    have hlists (advanced : Bool) :
        ∀ x ∈ (Construct.authenticationFilter advanced).parameters, x.2.kind ≠ .list := by
      cases advanced <;> decide
    exact @readsAs_flagged δ _ (· == .advancedFilter) Construct.regular_authenticationFilter hlists ps
      element
  | userSearch => exact readsAs_userFilter grammar ps element h
  | groupSearch => exact readsAs_groupFilter grammar ps element h

/-- The command of a scope. -/
def command (k : FilteredScope) (e : Element) : Command :=
  ⟨k.address owner e.filterKind, .ofList (k.construct.entries e ++ e.filters.flatMap k.entries)⟩

/-- A scope is taken with one filter and at most a cache before it, and becomes its own command and the one
of the cache. -/
theorem compiles (k : FilteredScope) : Compiles (k.compile grammar owner : Compilation δ Unit)
    (Element.IsTagged k.construct (Element.HoldsFilter grammar k.alternatives (k.accepts grammar)))
    fun e => .ofCommands (k.command owner e ::
      ((scopeAfter e.children).cache.map (·.resolve (k.command owner e).address)).toList) := by
  rw [compile_eq]
  apply Reads.congr
  · apply Reads.readParameters_bind k.regular_construct (Construct.fresh_empty _)
    intro t
    apply Reads.bind
    · exact reads_filterScope grammar (k.accepts grammar) k.entries k.cache_notMem_alternatives
        (k.readsAs_filter grammar) _
    · intro e
      exact adds_pushWithCache _ _
  · intro e _
    exact ⟨fun h => ⟨h.1, h.2.1⟩, fun h => ⟨h.tag, h.inside, trivial⟩⟩
  · intro e _
    rfl
  · intro e _
    rw [Output.nil_append, ← Dictionary.setAll_append]
    rfl

end FilteredScope

end ManagementScript
