import ManagementScript.Proofs.Compilation.Management
import ManagementScript.Proofs.Diagnostics.Collection

/-!
Which events a compilation emits. Whatever it comes to, it tells of its progress only: an error is its
result, and not an event.
-/

namespace ManagementScript

namespace Compilation

variable {δ α β σ ε : Type}

/-- Whatever the computation comes to, the events that it adds are quiet. -/
def Quiet (m : ExceptT ε (StateM (CompilationState δ)) α) : Prop :=
  ∀ s, ∃ new, (m s).2.events.toList = s.events.toList ++ new ∧ ∀ event ∈ new, event.IsQuiet

theorem quiet_of_same {m : ExceptT ε (StateM (CompilationState δ)) α}
    (h : ∀ s, (m s).2.events = s.events) : Quiet m :=
  fun s => ⟨[], by rw [h, List.append_nil], List.forall_mem_nil _⟩

theorem Quiet.bind {m : ExceptT ε (StateM (CompilationState δ)) α}
    {f : α → ExceptT ε (StateM (CompilationState δ)) β} (h : Quiet m) (hf : ∀ a, Quiet (f a)) :
    Quiet (m >>= f) := by
  intro s
  obtain ⟨new, hnew, hquiet⟩ := h s
  rw [stateful_bind_apply]
  generalize m s = x at hnew
  obtain ⟨result, s₁⟩ := x
  cases result with
  | error e => exact ⟨new, hnew, hquiet⟩
  | ok a =>
    obtain ⟨new', hnew', hquiet'⟩ := hf a s₁
    refine ⟨new ++ new', ?_, List.forall_mem_append.2 ⟨hquiet, hquiet'⟩⟩
    rw [hnew', hnew, List.append_assoc]

theorem quiet_pure (a : α) : Quiet (pure a : ExceptT ε (StateM (CompilationState δ)) α) :=
  quiet_of_same fun _ => rfl

theorem quiet_throw (e : ε) : Quiet (throw e : ExceptT ε (StateM (CompilationState δ)) α) :=
  quiet_of_same fun _ => rfl

theorem quiet_getCursor : Quiet (getCursor : Compilation δ Cursor) := quiet_of_same fun _ => rfl

theorem quiet_location : Quiet (location : Compilation δ Position) := quiet_of_same fun _ => rfl

theorem quiet_check (result : Except CompilationError α) : Quiet (check result : Compilation δ α) :=
  quiet_of_same fun _ => rfl

theorem quiet_move (step : Cursor → Cursor.Moved α) : Quiet (move step : Compilation δ α) := by
  apply quiet_of_same
  intro s
  rw [move]
  split <;> rfl

theorem quiet_push (c : Command) : Quiet (push c : Compilation δ Unit) := by
  apply quiet_of_same
  intro _
  rw [push]
  split <;> rfl

theorem quiet_extend (commands : Script) : Quiet (extend commands : Compilation δ Unit) := by
  apply quiet_of_same
  intro s
  rw [extend]
  split <;> rfl

theorem quiet_emit {event : LogEvent} (h : event.IsQuiet) :
    Quiet (emit event : Compilation δ Unit) :=
  fun _ => ⟨[event], Array.toList_push, List.forall_mem_singleton.2 h⟩

theorem quiet_succeed (code : Code) (message : String) (facts : List (String × String)) :
    Quiet (succeed code message facts : Compilation δ Unit) :=
  quiet_emit ((LogEvent.isQuiet_success code message).withFacts facts)

theorem Quiet.isolated {m : Compilation δ α} (h : Quiet m) : Quiet (isolated m) := by
  intro s
  obtain ⟨new, hnew, hquiet⟩ := h { s with script := .empty }
  refine ⟨new, ?_, hquiet⟩
  rw [Compilation.isolated]
  split
  · next hm =>
    rw [hm] at hnew
    exact hnew
  · next hm =>
    rw [hm] at hnew
    exact hnew

theorem Quiet.discard {m : Compilation δ α} (h : Quiet m) : Quiet (discard m) := by
  have hmap : (Functor.discard m : Compilation δ PUnit) = m >>= fun _ => pure () :=
    (bind_pure_comp _ m).symm
  rw [hmap]
  exact h.bind fun _ => quiet_pure _

/-! ### Elements and attributes -/

theorem quiet_unexpectedElement : Quiet (unexpectedElement : Compilation δ α) :=
  quiet_getCursor.bind fun _ => quiet_throw _

theorem quiet_requireNamespace (grammar : GrammarNamespace) :
    Quiet (requireNamespace grammar : Compilation δ Unit) := by
  apply quiet_getCursor.bind
  intro cursor
  split
  · exact quiet_pure _
  · exact quiet_throw _

theorem quiet_nextInside : Quiet (nextInside : Compilation δ Tag) := by
  apply (quiet_move _).bind
  intro tag
  split
  · exact quiet_getCursor.bind fun _ => quiet_throw _
  · exact quiet_pure _

theorem quiet_nextElement (grammar : GrammarNamespace) :
    Quiet (nextElement grammar : Compilation δ (Option ElementName)) := by
  apply quiet_nextInside.bind
  intro tag
  split
  · exact (quiet_requireNamespace grammar).bind fun _ => quiet_getCursor.bind fun _ => quiet_pure _
  · exact quiet_pure _

theorem quiet_forChildren {grammar : GrammarNamespace} {seen : σ}
    {visit : σ → ElementName → Compilation δ σ} (h : ∀ seen element, Quiet (visit seen element)) :
    Quiet (forChildren grammar seen visit) := by
  have hamong : ∀ (pending : List Xml.Event) (seen : σ),
      Quiet (visitAmong grammar visit seen pending) := by
    intro pending
    induction pending with
    | nil => exact fun seen => (quiet_nextElement grammar).discard.bind fun _ => quiet_pure _
    | cons event pending ih =>
      intro seen
      apply (quiet_nextElement grammar).bind
      intro next
      cases next with
      | none => exact quiet_pure _
      | some element => exact (h seen element).bind ih
  exact quiet_getCursor.bind fun cursor => hamong cursor.pending seen

theorem quiet_requireNoContent : Quiet (requireNoContent : Compilation δ Unit) := by
  apply quiet_nextInside.bind
  intro tag
  split
  · exact quiet_unexpectedElement
  · exact quiet_pure _

theorem quiet_requireNoAttributes : Quiet (requireNoAttributes : Compilation δ Unit) := by
  apply quiet_getCursor.bind
  intro cursor
  split
  · exact quiet_pure _
  · exact quiet_throw _

theorem quiet_readInto (construct : Construct) (ps : Parameters) :
    Quiet (readInto construct ps : Compilation δ Construct.Reading) :=
  quiet_of_same fun s => by rw [readInto_apply]

theorem quiet_readParameters (construct : Construct) (ps : Parameters) :
    Quiet (readParameters construct ps : Compilation δ Parameters) :=
  (quiet_readInto construct ps).bind fun _ => quiet_pure _

theorem quiet_readNamed (construct : Construct) :
    Quiet (readNamed construct : Compilation δ (String × Parameters)) :=
  (quiet_readInto construct .empty).bind fun _ => quiet_pure _

theorem quiet_leaf (construct : Construct) (address : Address) :
    Quiet (leaf construct address : Compilation δ Unit) :=
  (quiet_readParameters construct .empty).bind fun _ => quiet_requireNoContent.bind fun _ => quiet_push _

theorem quiet_partOf (construct : Construct) (ps : Parameters) :
    Quiet (partOf construct ps : Compilation δ Parameters) :=
  (quiet_readParameters construct ps).bind fun _ => quiet_requireNoContent.bind fun _ => quiet_pure _

theorem quiet_once (seen : ElementSet) (element : ElementName) :
    Quiet (once seen element : Compilation δ ElementSet) :=
  quiet_location.bind fun _ => quiet_check _

theorem quiet_exclusive (seen : ElementSet) (element : ElementName) (group : List ElementName) :
    Quiet (exclusive seen element group : Compilation δ ElementSet) :=
  quiet_location.bind fun _ => quiet_check _

/-- A child that may occur once. -/
theorem quiet_once_bind {seen : ElementSet} {element : ElementName}
    {f : ElementSet → Compilation δ α} (h : ∀ seen, Quiet (f seen)) :
    Quiet (once seen element >>= f) :=
  (quiet_once seen element).bind h

/-- A child that others of its group exclude. -/
theorem quiet_exclusive_bind {seen : ElementSet} {element : ElementName} {group : List ElementName}
    {f : ElementSet → Compilation δ α} (h : ∀ seen, Quiet (f seen)) :
    Quiet (exclusive seen element group >>= f) :=
  (quiet_exclusive seen element group).bind h

/-- A child behind which something is returned. -/
theorem Quiet.return {m : Compilation δ α} (h : Quiet m) (b : β) :
    Quiet (do let _ ← m; return b) :=
  h.bind fun _ => quiet_pure b

/-- A resource whose name is reserved. -/
theorem quiet_named {construct : Construct} {element : ElementName} {names : NameSet}
    {f : String × Parameters → NameSet → Compilation δ α} (h : ∀ x names, Quiet (f x names)) :
    Quiet (do
      let position ← location
      let x ← readNamed construct
      let names ← check (names.reserve element x.1 position)
      f x names) :=
  quiet_location.bind fun _ => (quiet_readNamed construct).bind fun x =>
    (quiet_check _).bind fun names => h x names

variable {grammar : GrammarNamespace}

/-! ### Properties and connections -/

theorem quiet_property (owner : Address) (valueRequired : Bool) (names : NameSet) :
    Quiet (property owner valueRequired names : Compilation δ NameSet) :=
  quiet_named fun _ names => quiet_requireNoContent.bind fun _ => (quiet_push _).return names

theorem quiet_properties (owner : Address) (valueRequired : Bool) :
    Quiet (properties grammar owner valueRequired : Compilation δ Unit) := by
  apply quiet_requireNoAttributes.bind
  intro _
  apply Quiet.discard
  apply quiet_forChildren
  intro names element
  split
  · exact quiet_property owner valueRequired names
  · exact quiet_unexpectedElement

theorem quiet_onlyProperties (owner : Address) (valueRequired : Bool) :
    Quiet (onlyProperties grammar owner valueRequired : Compilation δ Unit) := by
  apply Quiet.discard
  apply quiet_forChildren
  intro seen element
  split
  · exact quiet_once_bind fun seen => (quiet_properties owner valueRequired).return seen
  · exact quiet_unexpectedElement

theorem quiet_ldapConnection (management : Address) (names : NameSet) :
    Quiet (ldapConnection grammar management names : Compilation δ NameSet) :=
  quiet_named fun _ names => (quiet_push _).bind fun _ =>
    (quiet_onlyProperties _ true).bind fun _ => (quiet_succeed _ _ _).return names

theorem quiet_outboundConnections (management : Address) :
    Quiet (outboundConnections grammar management : Compilation δ Unit) := by
  apply quiet_requireNoAttributes.bind
  intro _
  apply Quiet.discard
  apply quiet_forChildren
  intro names element
  split
  · exact quiet_ldapConnection management names
  · exact quiet_unexpectedElement

/-! ### Server identities -/

theorem quiet_ssl (realm : Address) : Quiet (ssl grammar realm : Compilation δ Unit) := by
  apply (quiet_readParameters _ _).bind
  intro ps
  apply Quiet.bind
  · apply quiet_forChildren
    rintro ⟨seen, ps⟩ element
    dsimp only
    split
    · exact quiet_once_bind fun _ => (quiet_partOf _ ps).bind fun _ => quiet_pure _
    · exact quiet_once_bind fun _ => (quiet_partOf _ ps).bind fun _ => quiet_pure _
    · exact quiet_unexpectedElement
  · exact fun _ => quiet_push _

theorem quiet_keytab (kerberos : Address) : Quiet (keytab kerberos : Compilation δ Unit) :=
  (quiet_readNamed _).bind fun _ => quiet_requireNoContent.bind fun _ => quiet_push _

theorem quiet_kerberosIdentity (realm : Address) :
    Quiet (kerberosIdentity grammar realm : Compilation δ Unit) := by
  apply quiet_requireNoAttributes.bind
  intro _
  apply (quiet_push _).bind
  intro _
  apply quiet_forChildren
  intro _ element
  split
  · exact quiet_keytab _
  · exact quiet_unexpectedElement

theorem quiet_serverIdentities (realm : Address) :
    Quiet (serverIdentities grammar realm : Compilation δ Unit) := by
  apply quiet_requireNoAttributes.bind
  intro _
  apply Quiet.discard
  apply quiet_forChildren
  intro seen element
  split
  · exact quiet_once_bind fun seen => (quiet_leaf _ _).return seen
  · exact quiet_once_bind fun seen => (quiet_ssl realm).return seen
  · exact quiet_once_bind fun seen => (quiet_kerberosIdentity realm).return seen
  · exact quiet_unexpectedElement

/-! ### Directories -/

theorem quiet_acceptInScope (alternatives : List ElementName) (scope : FilterScope)
    (element : ElementName) :
    Quiet (acceptInScope alternatives scope element : Compilation δ (FilterScope × Bool)) := by
  apply quiet_location.bind
  intro position
  split
  · split
    · exact quiet_throw _
    · exact quiet_unexpectedElement
  split
  · exact quiet_pure _
  split
  · split
    · exact quiet_throw _
    · exact ((quiet_readInto _ _).bind fun _ => quiet_requireNoContent.return _).bind
        fun _ => quiet_pure _
  · exact quiet_unexpectedElement

theorem quiet_filterScope {alternatives : List ElementName} {ps : Parameters}
    {readFilter : Parameters → ElementName → Compilation δ Parameters}
    (h : ∀ ps element, Quiet (readFilter ps element)) :
    Quiet (filterScope grammar alternatives ps readFilter) := by
  apply Quiet.bind
  · apply quiet_forChildren
    rintro ⟨scope, ps⟩ element
    apply (quiet_acceptInScope alternatives scope element).bind
    rintro ⟨scope, isFilter⟩
    cases isFilter with
    | true => exact (h ps element).bind fun _ => quiet_pure _
    | false => exact quiet_pure _
  · rintro ⟨scope, ps⟩
    dsimp only
    split
    · exact quiet_pure _
    · exact quiet_location.bind fun _ => quiet_throw _

theorem quiet_pushWithCache (owner : Command) (cache : Option PendingCommand) :
    Quiet (pushWithCache owner cache : Compilation δ Unit) := by
  apply (quiet_push owner).bind
  intro _
  cases cache with
  | some cache => exact quiet_push _
  | none => exact quiet_pure _

theorem quiet_ldapAuthentication (realm : Address) :
    Quiet (ldapAuthentication grammar realm : Compilation δ Unit) :=
  (quiet_readParameters _ _).bind fun _ =>
    (quiet_filterScope fun _ _ => quiet_partOf _ _).bind fun _ => quiet_pushWithCache _ _

theorem quiet_usernameToDn (ldap : Address) :
    Quiet (usernameToDn grammar ldap : Compilation δ Unit) := by
  apply (quiet_readParameters _ _).bind
  intro ps
  apply Quiet.bind
  · apply quiet_filterScope
    intro ps filter
    split
    · exact quiet_requireNoAttributes.bind fun _ => quiet_requireNoContent.return ps
    · exact quiet_partOf _ _
  · exact fun _ => quiet_pushWithCache _ _

theorem quiet_groupToPrincipal (ps : Parameters) :
    Quiet (groupToPrincipal grammar ps : Compilation δ Parameters) := by
  apply (quiet_readParameters _ _).bind
  intro ps
  apply Quiet.bind
  · apply quiet_forChildren
    rintro ⟨seen, ps⟩ element
    dsimp only
    split
    · exact quiet_once_bind fun _ => (quiet_partOf _ ps).bind fun _ => quiet_pure _
    · exact quiet_unexpectedElement
  · exact fun _ => quiet_pure _

theorem quiet_groupSearch (ldap : Address) :
    Quiet (groupSearch grammar ldap : Compilation δ Unit) := by
  apply (quiet_readParameters _ _).bind
  intro ps
  apply Quiet.bind
  · apply quiet_filterScope
    intro ps filter
    split
    · exact quiet_groupToPrincipal ps
    · exact quiet_partOf _ _
  · exact fun _ => quiet_pushWithCache _ _

theorem quiet_ldapAuthorization (realm : Address) :
    Quiet (ldapAuthorization grammar realm : Compilation δ Unit) := by
  apply (quiet_readParameters _ _).bind
  intro ps
  apply (quiet_push _).bind
  intro _
  apply Quiet.discard
  apply quiet_forChildren
  intro seen element
  split
  · exact quiet_once_bind fun seen => (quiet_usernameToDn _).return seen
  · exact quiet_once_bind fun seen => (quiet_groupSearch _).return seen
  · exact quiet_unexpectedElement

/-! ### Authentication and authorization -/

theorem quiet_plugInSource (address : Address) (withMechanism : Bool) :
    Quiet (plugInSource grammar address withMechanism : Compilation δ Unit) :=
  (quiet_readParameters _ _).bind fun _ => (quiet_push _).bind fun _ => quiet_onlyProperties address false

theorem quiet_password : Quiet (password grammar : Compilation δ String) := by
  apply Quiet.bind
  · apply quiet_forChildren
    intro password element
    split
    · have hread : Quiet (do
          requireNoAttributes
          return some (Text.trimmed (← move Cursor.elementText)) : Compilation δ (Option String)) :=
        quiet_requireNoAttributes.bind fun _ => (quiet_move _).bind fun _ => quiet_pure _
      split
      · exact quiet_location.bind fun _ => (quiet_throw _).bind fun _ => hread
      · exact hread
    · exact quiet_unexpectedElement
  · intro password
    split
    · split
      · exact quiet_location.bind fun _ => quiet_throw _
      · exact quiet_pure _
    · exact quiet_location.bind fun _ => quiet_throw _

theorem quiet_user (users : Address) (names : NameSet) :
    Quiet (user grammar users names : Compilation δ NameSet) :=
  quiet_named fun _ names => quiet_password.bind fun _ => (quiet_push _).return names

theorem quiet_users (realm : Address) : Quiet (users grammar realm : Compilation δ Unit) := by
  apply quiet_requireNoAttributes.bind
  intro _
  apply (quiet_push _).bind
  intro _
  apply Quiet.discard
  apply quiet_forChildren
  intro names element
  split
  · exact quiet_user _ names
  · exact quiet_unexpectedElement

theorem quiet_authenticationSource (realm : Address) (element : ElementName) :
    Quiet (authenticationSource grammar realm element : Compilation δ Unit) := by
  unfold authenticationSource
  split
  · exact quiet_leaf _ _
  · exact quiet_leaf _ _
  · exact quiet_leaf _ _
  · exact quiet_leaf _ _
  · exact quiet_ldapAuthentication realm
  · exact quiet_leaf _ _
  · exact quiet_users realm
  · exact quiet_plugInSource _ true
  · exact quiet_unexpectedElement

theorem quiet_authentication (realm : Address) :
    Quiet (authentication grammar realm : Compilation δ Unit) := by
  apply quiet_requireNoAttributes.bind
  intro _
  apply Quiet.discard
  apply quiet_forChildren
  intro seen element
  split
  iterate 3 exact quiet_once_bind fun seen => (quiet_authenticationSource realm _).return seen
  iterate 5 exact quiet_exclusive_bind fun seen => (quiet_authenticationSource realm _).return seen
  exact quiet_unexpectedElement

theorem quiet_authorization (realm : Address) :
    Quiet (authorization grammar realm : Compilation δ (Option Value)) := by
  apply (quiet_readParameters _ _).bind
  intro ps
  refine Quiet.bind (Quiet.discard (quiet_forChildren ?_)) fun _ => quiet_pure _
  intro seen element
  dsimp only
  split
  · exact quiet_exclusive_bind fun seen => (quiet_leaf _ _).return seen
  · exact quiet_exclusive_bind fun seen => (quiet_plugInSource _ false).return seen
  · exact quiet_exclusive_bind fun seen => (quiet_ldapAuthorization realm).return seen
  · exact quiet_unexpectedElement

/-! ### Realms and the management element -/

theorem quiet_plugIn (realm : Address) (modules : NameSet) :
    Quiet (plugIn realm modules : Compilation δ NameSet) :=
  quiet_named fun _ modules => quiet_requireNoContent.bind fun _ => (quiet_push _).return modules

theorem quiet_plugIns (realm : Address) : Quiet (plugIns grammar realm : Compilation δ Unit) := by
  apply quiet_requireNoAttributes.bind
  intro _
  apply Quiet.discard
  apply quiet_forChildren
  intro modules element
  split
  · exact quiet_plugIn realm modules
  · exact quiet_unexpectedElement

theorem quiet_realmContent (realm : Address) :
    Quiet (realmContent grammar realm : Compilation δ (Option Value)) := by
  apply Quiet.bind
  · apply quiet_forChildren
    rintro ⟨seen, mapping⟩ element
    dsimp only
    split
    · exact quiet_once_bind fun _ => (quiet_plugIns realm).return _
    · exact quiet_once_bind fun _ => (quiet_serverIdentities realm).return _
    · exact quiet_once_bind fun _ => (quiet_authentication realm).return _
    · exact quiet_once_bind fun _ => (quiet_authorization realm).bind fun _ => quiet_pure _
    · exact quiet_unexpectedElement
  · exact fun _ => quiet_pure _

theorem quiet_securityRealm (management : Address) (names : NameSet) :
    Quiet (securityRealm grammar management names : Compilation δ NameSet) :=
  quiet_named fun _ names => (quiet_realmContent _).isolated.bind fun _ => (quiet_push _).bind fun _ =>
    (quiet_extend _).bind fun _ => (quiet_succeed _ _ _).return names

theorem quiet_securityRealms (management : Address) :
    Quiet (securityRealms grammar management : Compilation δ Unit) := by
  apply quiet_requireNoAttributes.bind
  intro _
  apply Quiet.discard
  apply quiet_forChildren
  intro names element
  split
  · exact quiet_securityRealm management names
  · exact quiet_unexpectedElement

theorem quiet_offer_declining {category : Category} {address : Address} {builtIn : Compilation Unit Unit}
    (h : Quiet builtIn) : Quiet (offer .declining category address builtIn) := by
  rw [offer_declining]
  exact h

theorem quiet_managementChild (management : Address) (seen : ElementSet) (element : ElementName) :
    Quiet (managementChild grammar .declining management seen element) := by
  unfold managementChild
  split
  · exact quiet_once_bind fun seen =>
      (quiet_offer_declining (quiet_securityRealms management)).return seen
  · exact quiet_once_bind fun seen =>
      (quiet_offer_declining (quiet_outboundConnections management)).return seen
  · exact quiet_once_bind fun seen => (quiet_offer_declining quiet_unexpectedElement).return seen
  · exact (quiet_offer_declining quiet_unexpectedElement).return seen
  · exact (quiet_offer_declining quiet_unexpectedElement).return seen
  · exact quiet_once_bind fun seen => (quiet_leaf _ _).return seen
  · exact quiet_unexpectedElement

/-- A management element is compiled, or refused, without an error or a warning in the log. -/
theorem quiet_management (base : Address) (native : Bool) :
    Quiet (management grammar .declining base native) := by
  apply quiet_requireNoAttributes.bind
  intro _
  refine Quiet.bind (quiet_emit ⟨rfl, rfl⟩) fun _ => ?_
  apply (quiet_forChildren (quiet_managementChild _)).isolated.bind
  rintro ⟨seen, commands⟩
  have hadd : Quiet (do
      extend commands
      succeed .managementCompiled "Management element translated"
        [("namespace", grammar.uri), ("operations", toString commands.size)] :
        Compilation Unit Unit) :=
    (quiet_extend commands).bind fun _ => quiet_succeed _ _ _
  dsimp only
  split
  · exact quiet_location.bind fun _ => (quiet_throw _).bind fun _ => hadd
  · exact hadd

end Compilation

end ManagementScript
