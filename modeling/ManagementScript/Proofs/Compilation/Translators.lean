import ManagementScript.Proofs.Compilation.FilterScope
import ManagementScript.Proofs.Compilation.Management
import ManagementScript.Proofs.Compilation.Scans

/-!
Every compilation of an element of the grammar looks at the start tag first and then at what stands
inside, and refuses children that are not in the vocabulary.
-/

namespace ManagementScript.Compilation

section

variable {δ α β : Type}

theorem readInto_state (construct : Construct) (ps : Parameters) (s : CompilationState δ) :
    (readInto construct ps s).2 = s := congrArg Prod.snd (readInto_apply construct ps s)

theorem readNamed_state (construct : Construct) (s : CompilationState δ) :
    (readNamed construct s).2 = s := by
  have hr := readInto_state construct .empty s
  rw [readNamed, bind_apply]
  generalize readInto construct .empty s = y at hr
  obtain ⟨result, s₁⟩ := y
  obtain rfl : s₁ = s := hr
  cases result with
  | error e => rfl
  | ok r => rfl

/-- The place of a start tag is the same behind the reading of its attributes. -/
theorem location_readNamed_bind (construct : Construct)
    (f : Position → String × Parameters → Compilation δ β) :
    (location >>= fun p => readNamed construct >>= f p) =
      readNamed construct >>= fun x => location >>= fun p => f p x := by
  funext s
  have hs := readNamed_state construct s
  rw [location_bind, bind_apply, bind_apply]
  generalize readNamed construct s = y at hs
  obtain ⟨result, s₁⟩ := y
  obtain rfl : s₁ = s := hs
  cases result with
  | error e => rfl
  | ok x => rfl

end

namespace Scans

open Construct (Regular)

variable {δ : Type} {admits : Construct → Prop} {grammar : GrammarNamespace}

theorem unexpectedElement {α : Type} :
    Scans admits grammar stage (unexpectedElement : Compilation δ α) :=
  .refuse refuses_unexpectedElement

theorem once_bind {α : Type} {g : ElementSet → Compilation δ α} (seen : ElementSet)
    (element : ElementName) (h : ∀ seen, Scans admits grammar stage (g seen)) :
    Scans admits grammar stage (once seen element >>= g) :=
  .before (stays_once seen element) h

theorem exclusive_bind {α : Type} {g : ElementSet → Compilation δ α} (seen : ElementSet)
    (element : ElementName) (group : List ElementName) (h : ∀ seen, Scans admits grammar stage (g seen)) :
    Scans admits grammar stage (exclusive seen element group >>= g) :=
  .before (stays_exclusive seen element group) h

theorem return_bind {α β : Type} {m : Compilation δ α} (h : Scans admits grammar stage m) (f : α → β) :
    Scans admits grammar stage (do return f (← m)) :=
  h.after fun _ => stays_pure _

/-- The name of a resource is reserved before what stands inside is read. -/
theorem named {α : Type} {g : String × Parameters → NameSet → Compilation δ α} {names : NameSet}
    (hc : admits construct) (h : ∀ resource names, Scans admits grammar .content (g resource names)) :
    Scans admits grammar .tag (do
      let position ← location
      let resource ← readNamed construct
      let names ← check (names.reserve element resource.1 position)
      g resource names) := by
  rw [location_readNamed_bind]
  apply readNamed_bind hc
  intro resource
  rw [← bind_assoc]
  exact .before (stays_reserve names element resource.1) (h resource)

/-! ### Identities and properties -/

theorem partOf {construct : Construct} (hc : admits construct) (ps : Parameters) :
    Scans admits grammar .tag (partOf construct ps : Compilation δ Parameters) :=
  .readParameters_bind hc fun _ => .after .noContent fun _ => stays_pure _

theorem property (owner : Address) (valueRequired : Bool) (names : NameSet) :
    Scans Regular grammar .tag (property owner valueRequired names : Compilation δ NameSet) := by
  apply named (Construct.regular_property valueRequired)
  intro resource names
  apply Scans.after .noContent
  intro _
  exact (stays_push _).bind fun _ => stays_pure _

theorem properties (owner : Address) (valueRequired : Bool) :
    Scans Regular grammar .tag (properties grammar owner valueRequired : Compilation δ Unit) := by
  apply Scans.bare
  apply Scans.discard
  apply Scans.children
  · intro names element
    split
    · exact property owner valueRequired names
    · exact .unexpectedElement
  · intro names
    exact refusesConstruct_unexpectedElement

theorem onlyProperties (owner : Address) (valueRequired : Bool) :
    Scans Regular grammar .content (onlyProperties grammar owner valueRequired : Compilation δ Unit) := by
  apply Scans.discard
  apply Scans.children
  · intro seen element
    split
    · apply once_bind
      intro seen
      exact (properties owner valueRequired).after fun _ => stays_pure _
    · exact .unexpectedElement
  · intro seen
    exact refusesConstruct_unexpectedElement

theorem ssl (realm : Address) : Scans Regular grammar .tag (ssl grammar realm : Compilation δ Unit) := by
  apply readParameters_bind (by decide)
  intro ps
  apply Scans.after
  · apply Scans.children
    · rintro ⟨seen, ps⟩ element
      dsimp only
      split
      · apply once_bind
        intro seen
        exact (partOf (by decide) _).return_bind _
      · apply once_bind
        intro seen
        exact (partOf (by decide) _).return_bind _
      · exact .unexpectedElement
    · intro seen
      exact refusesConstruct_unexpectedElement
  · intro x
    exact stays_push _

theorem keytab (kerberos : Address) :
    Scans Regular grammar .tag (keytab kerberos : Compilation δ Unit) := by
  apply readNamed_bind (by decide)
  intro resource
  exact .after .noContent fun _ => stays_push _

theorem kerberosIdentity (realm : Address) :
    Scans Regular grammar .tag (kerberosIdentity grammar realm : Compilation δ Unit) := by
  apply Scans.bare
  apply Scans.before (stays_push _)
  intro _
  apply Scans.children
  · intro _ element
    split
    · exact keytab _
    · exact .unexpectedElement
  · intro _
    exact refusesConstruct_unexpectedElement

theorem serverIdentities (realm : Address) :
    Scans Regular grammar .tag (serverIdentities grammar realm : Compilation δ Unit) := by
  apply Scans.bare
  apply Scans.discard
  apply Scans.children
  · intro seen element
    split
    · apply once_bind
      intro seen
      exact (leaf (by decide) _).after fun _ => stays_pure _
    · apply once_bind
      intro seen
      exact (ssl realm).after fun _ => stays_pure _
    · apply once_bind
      intro seen
      exact (kerberosIdentity realm).after fun _ => stays_pure _
    · exact .unexpectedElement
  · intro seen
    exact refusesConstruct_unexpectedElement

/-! ### Directories -/

theorem cache : Scans Regular grammar .tag (cache : Compilation δ PendingCommand) :=
  .tagged (by decide) fun _ => .after .noContent fun _ => stays_pure _

theorem stays_pushWithCache (owner : Command) (cache : Option PendingCommand) :
    Stays (pushWithCache owner cache : Compilation δ Unit) := by
  apply (stays_push owner).bind
  intro _
  cases cache with
  | none => exact stays_pure ()
  | some cache => exact stays_push _

section

variable {alternatives : List ElementName}
  {readFilter : Parameters → ElementName → Compilation δ Parameters}

/-- Nothing is taken behind the filter, and no second cache before it. -/
theorem refuses_acceptInScope {scope : FilterScope}
    (h : scope.filter.isSome ∨ element ∉ alternatives ∧ (element = .cache → scope.cache.isSome)) :
    Refuses (acceptInScope alternatives scope element : Compilation δ _) := by
  intro s
  rw [acceptInScope, location_bind]
  by_cases hfilter : scope.filter.isSome
  · rw [if_pos hfilter]
    split
    · exact ⟨_, s, rfl, by simp⟩
    · exact refuses_unexpectedElement s
  rcases h with h | ⟨h, hcache⟩
  · exact absurd h hfilter
  rw [if_neg hfilter, if_neg (by simpa using h)]
  split
  · next he =>
    rw [if_pos (hcache (eq_of_beq he))]
    exact ⟨_, s, rfl, by simp⟩
  · exact refuses_unexpectedElement s

theorem refusesConstruct_acceptInScope (h : .unknown ∉ alternatives) (scope : FilterScope) :
    RefusesConstruct (acceptInScope alternatives scope .unknown : Compilation δ _) := by
  have hc : ¬alternatives.contains .unknown := by simpa using h
  have hne : ¬(ElementName.unknown == .cache) = true := by decide
  intro s
  rw [acceptInScope, location_bind, if_neg hc, if_neg hc, if_neg hne, ite_self]
  exact refusesConstruct_unexpectedElement s

theorem visitInScope (h : ∀ ps element, Scans Regular grammar .tag (readFilter ps element))
    (seen : FilterScope × Parameters) (element : ElementName) :
    Scans Regular grammar .tag (visitInScope alternatives readFilter seen element) := by
  obtain ⟨scope, ps⟩ := seen
  by_cases hrefused : scope.filter.isSome ∨
      element ∉ alternatives ∧ (element = .cache → scope.cache.isSome)
  · exact .refuse ((refuses_acceptInScope hrefused).bind _)
  simp only [not_or, Bool.not_eq_true, Option.isSome_eq_false_iff, Option.isNone_iff_eq_none] at hrefused
  obtain ⟨hfilter, hrest⟩ := hrefused
  by_cases hmem : element ∈ alternatives
  · have hvisit : Compilation.visitInScope alternatives readFilter (scope, ps) element = (do
        let _ ← location
        return ({ scope with filter := some element }, ← readFilter ps element)) := by
      simp [Compilation.visitInScope, acceptInScope, hfilter, hmem]
    rw [hvisit]
    exact (h ps element).return_bind fun ps => ({ scope with filter := some element }, ps)
  · simp only [hmem, not_false_eq_true, true_and, Classical.not_imp, Bool.not_eq_true,
      Option.isSome_eq_false_iff, Option.isNone_iff_eq_none] at hrest
    obtain ⟨rfl, hcache⟩ := hrest
    have hvisit : Compilation.visitInScope alternatives readFilter (scope, ps) .cache = (do
        let _ ← location
        return ({ scope with cache := some (← Compilation.cache) }, ps)) := by
      simp [Compilation.visitInScope, acceptInScope, hfilter, hcache, hmem]
    rw [hvisit]
    exact cache.return_bind fun cache => ({ scope with cache := some cache }, ps)

theorem filterScope (hunknown : .unknown ∉ alternatives)
    (h : ∀ ps element, Scans Regular grammar .tag (readFilter ps element)) (ps : Parameters) :
    Scans Regular grammar .content (filterScope grammar alternatives ps readFilter) := by
  apply Scans.after
  · apply Scans.children
    · exact visitInScope h
    · intro seen
      exact (refusesConstruct_acceptInScope hunknown seen.1).bind _
  · rintro ⟨scope, ps⟩
    dsimp only
    cases scope.filter with
    | none => exact stays_throw_location (by simp)
    | some filter => exact stays_pure _

end

theorem ldapAuthentication (realm : Address) :
    Scans Regular grammar .tag (ldapAuthentication grammar realm : Compilation δ Unit) := by
  apply readParameters_bind (by decide)
  intro ps
  apply Scans.after
  · exact filterScope (by decide) (fun _ _ => partOf (Construct.regular_authenticationFilter _) _) ps
  · intro x
    exact stays_pushWithCache _ _

theorem usernameToDn (ldap : Address) :
    Scans Regular grammar .tag (usernameToDn grammar ldap : Compilation δ Unit) := by
  apply readParameters_bind (by decide)
  intro ps
  apply Scans.after
  · apply filterScope (by decide)
    intro ps element
    split
    · apply Scans.bare
      exact .after .noContent fun _ => stays_pure _
    · exact partOf (Construct.regular_userSearch _) _
  · intro x
    exact stays_pushWithCache _ _

theorem groupToPrincipal (ps : Parameters) :
    Scans Regular grammar .tag (groupToPrincipal grammar ps : Compilation δ Parameters) := by
  apply readParameters_bind (by decide)
  intro ps
  apply Scans.after
  · apply Scans.children
    · rintro ⟨seen, ps⟩ element
      dsimp only
      split
      · apply once_bind
        intro seen
        exact (partOf (by decide) _).return_bind _
      · exact .unexpectedElement
    · intro seen
      exact refusesConstruct_unexpectedElement
  · intro x
    exact stays_pure _

theorem groupSearch (ldap : Address) :
    Scans Regular grammar .tag (groupSearch grammar ldap : Compilation δ Unit) := by
  apply readParameters_bind (by decide)
  intro ps
  apply Scans.after
  · apply filterScope (by decide)
    intro ps element
    split
    · exact groupToPrincipal ps
    · exact partOf (by decide) _
  · intro x
    exact stays_pushWithCache _ _

theorem ldapAuthorization (realm : Address) :
    Scans Regular grammar .tag (ldapAuthorization grammar realm : Compilation δ Unit) := by
  apply readParameters_bind (by decide)
  intro ps
  apply Scans.before (stays_push _)
  intro _
  apply Scans.discard
  apply Scans.children
  · intro seen element
    split
    · apply once_bind
      intro seen
      exact (usernameToDn _).after fun _ => stays_pure _
    · apply once_bind
      intro seen
      exact (groupSearch _).after fun _ => stays_pure _
    · exact .unexpectedElement
  · intro seen
    exact refusesConstruct_unexpectedElement

/-! ### Authentication and authorization -/

theorem plugInSource (address : Address) (withMechanism : Bool) :
    Scans Regular grammar .tag (plugInSource grammar address withMechanism : Compilation δ Unit) := by
  apply readParameters_bind (Construct.regular_plugInSource withMechanism)
  intro ps
  exact .before (stays_push _) fun _ => onlyProperties address false

theorem password : Scans Regular grammar .content (password grammar : Compilation δ String) := by
  apply Scans.after
  · apply Scans.children
    · intro password element
      split
      · have hread : Scans Regular grammar .tag (do
            requireNoAttributes
            return some (Text.trimmed (← move Cursor.elementText)) : Compilation δ _) :=
          .bare (Scans.text.return_bind _)
        split
        · exact .refuse fun s => ⟨_, s, rfl, by simp⟩
        · exact hread
      · exact .unexpectedElement
    · intro password
      exact refusesConstruct_unexpectedElement
  · intro password
    cases password with
    | none => exact stays_throw_location (by simp)
    | some password =>
      dsimp only
      split
      · exact stays_throw_location (by simp)
      · exact stays_pure _

theorem user (users : Address) (names : NameSet) :
    Scans Regular grammar .tag (user grammar users names : Compilation δ NameSet) := by
  apply named (by decide)
  intro resource names
  apply Scans.after password
  intro password
  exact (stays_push _).bind fun _ => stays_pure _

theorem users (realm : Address) :
    Scans Regular grammar .tag (users grammar realm : Compilation δ Unit) := by
  apply Scans.bare
  apply Scans.before (stays_push _)
  intro _
  apply Scans.discard
  apply Scans.children
  · intro names element
    split
    · exact user _ names
    · exact .unexpectedElement
  · intro names
    exact refusesConstruct_unexpectedElement

theorem authenticationSource (realm : Address) (element : ElementName) :
    Scans Regular grammar .tag (authenticationSource grammar realm element : Compilation δ Unit) := by
  unfold Compilation.authenticationSource
  split
  · exact leaf (by decide) _
  · exact leaf (by decide) _
  · exact leaf (by decide) _
  · exact leaf (by decide) _
  · exact ldapAuthentication realm
  · exact leaf (by decide) _
  · exact users realm
  · exact plugInSource _ true
  · exact .unexpectedElement

theorem authentication (realm : Address) :
    Scans Regular grammar .tag (authentication grammar realm : Compilation δ Unit) := by
  have hsource (seen : ElementSet) (element : ElementName) : Scans Regular grammar .tag (do
      Compilation.authenticationSource grammar realm element
      return seen : Compilation δ ElementSet) :=
    (authenticationSource realm element).after fun _ => stays_pure _
  apply Scans.bare
  apply Scans.discard
  apply Scans.children
  · intro seen element
    split
    iterate 3 exact once_bind _ _ fun seen => hsource seen _
    iterate 5 exact exclusive_bind _ _ _ fun seen => hsource seen _
    exact .unexpectedElement
  · intro seen
    exact refusesConstruct_unexpectedElement

theorem authorization (realm : Address) :
    Scans Regular grammar .tag (authorization grammar realm : Compilation δ (Option Value)) := by
  apply readParameters_bind (by decide)
  intro ps
  refine .after (.discard (.children ?_ fun seen => refusesConstruct_unexpectedElement))
    fun _ => stays_pure _
  intro seen element
  dsimp only
  split
  · apply exclusive_bind
    intro seen
    exact (leaf (by decide) _).after fun _ => stays_pure _
  · apply exclusive_bind
    intro seen
    exact (plugInSource _ false).after fun _ => stays_pure _
  · apply exclusive_bind
    intro seen
    exact (ldapAuthorization realm).after fun _ => stays_pure _
  · exact .unexpectedElement

/-! ### Realms, connections and the management element -/

theorem plugIn (realm : Address) (modules : NameSet) :
    Scans Regular grammar .tag (plugIn realm modules : Compilation δ NameSet) := by
  apply named (by decide)
  intro resource modules
  apply Scans.after .noContent
  intro _
  exact (stays_push _).bind fun _ => stays_pure _

theorem plugIns (realm : Address) :
    Scans Regular grammar .tag (plugIns grammar realm : Compilation δ Unit) := by
  apply Scans.bare
  apply Scans.discard
  apply Scans.children
  · intro modules element
    split
    · exact plugIn realm modules
    · exact .unexpectedElement
  · intro modules
    exact refusesConstruct_unexpectedElement

theorem realmContent (realm : Address) :
    Scans Regular grammar .content (realmContent grammar realm : Compilation δ (Option Value)) := by
  apply Scans.after
  · apply Scans.children
    · rintro ⟨seen, mapping⟩ element
      dsimp only
      split
      · apply once_bind
        intro seen
        exact (plugIns realm).after fun _ => stays_pure _
      · apply once_bind
        intro seen
        exact (serverIdentities realm).after fun _ => stays_pure _
      · apply once_bind
        intro seen
        exact (authentication realm).after fun _ => stays_pure _
      · apply once_bind
        intro seen
        exact (authorization realm).return_bind _
      · exact .unexpectedElement
    · intro seen
      exact refusesConstruct_unexpectedElement
  · intro x
    exact stays_pure _

theorem securityRealm (management : Address) (names : NameSet) :
    Scans Regular grammar .tag (securityRealm grammar management names : Compilation δ NameSet) := by
  apply named (by decide)
  intro resource names
  apply Scans.after (realmContent _).isolated
  intro x
  apply (stays_push _).bind
  intro _
  apply (stays_extend _).bind
  intro _
  exact (stays_emit _).bind fun _ => stays_pure _

theorem securityRealms (management : Address) :
    Scans Regular grammar .tag (securityRealms grammar management : Compilation δ Unit) := by
  apply Scans.bare
  apply Scans.discard
  apply Scans.children
  · intro names element
    split
    · exact securityRealm management names
    · exact .unexpectedElement
  · intro names
    exact refusesConstruct_unexpectedElement

theorem ldapConnection (management : Address) (names : NameSet) :
    Scans Regular grammar .tag (ldapConnection grammar management names : Compilation δ NameSet) := by
  apply named (by decide)
  intro resource names
  apply Scans.before (stays_push _)
  intro _
  apply Scans.after (onlyProperties _ true)
  intro _
  exact (stays_emit _).bind fun _ => stays_pure _

theorem outboundConnections (management : Address) :
    Scans Regular grammar .tag (outboundConnections grammar management : Compilation δ Unit) := by
  apply Scans.bare
  apply Scans.discard
  apply Scans.children
  · intro names element
    split
    · exact ldapConnection management names
    · exact .unexpectedElement
  · intro names
    exact refusesConstruct_unexpectedElement

theorem managementChild (management : Address) (seen : ElementSet) (element : ElementName) :
    Scans Regular grammar .tag (managementChild grammar .declining management seen element) := by
  unfold Compilation.managementChild
  simp only [offer_declining]
  split
  · apply once_bind
    intro seen
    exact (securityRealms management).after fun _ => stays_pure _
  · apply once_bind
    intro seen
    exact (outboundConnections management).after fun _ => stays_pure _
  · apply once_bind
    intro seen
    exact unexpectedElement.after fun _ => stays_pure _
  · exact unexpectedElement.after fun _ => stays_pure _
  · exact unexpectedElement.after fun _ => stays_pure _
  · apply once_bind
    intro seen
    exact (leaf (by decide) _).after fun _ => stays_pure _
  · exact .unexpectedElement

/-- What the compilation of a management element reads. -/
theorem managementScript (base : Address) :
    Scans Regular grammar .tag (managementScript grammar base) := by
  apply Scans.bare
  apply Scans.before (stays_emit _)
  intro _
  apply Scans.isolated
  apply Scans.children
  · exact managementChild _
  · intro seen
    exact refusesConstruct_unexpectedElement

theorem stays_addManagement (native : Bool) (seen : ElementSet) (commands : Script) :
    Stays (addManagement grammar native seen commands) := by
  have hadd : Stays (do
      extend commands
      succeed .managementCompiled "Management element translated"
        [("namespace", grammar.uri), ("operations", toString commands.size)] :
        Compilation Unit Unit) :=
    (stays_extend commands).bind fun _ => stays_emit _
  rw [addManagement]
  split
  · have hmissing : Stays (do throw (.missingElement [ElementName.managementInterfaces.localName]
        (← location)) : Compilation Unit PUnit) := stays_throw_location (by simp)
    have hbind := hmissing.bind fun _ => hadd
    rwa [bind_assoc] at hbind
  · exact hadd

theorem management (base : Address) (native : Bool) :
    Scans Regular grammar .tag (management grammar .declining base native) := by
  rw [management_eq]
  exact (managementScript base).after fun x => stays_addManagement native x.1 x.2

end Scans

end ManagementScript.Compilation
