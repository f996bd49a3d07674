import ManagementScript.Proofs.Compilation.Atomicity

/-!
Compilations below another address. The address that a compilation is given only stands before the
addresses of its commands: in everything else it does the same below every address.
-/

namespace ManagementScript

theorem Address.append_prefixedBy (a base : Address) (key value : String) :
    (a.append key value).prefixedBy base = (a.prefixedBy base).append key value := by
  rw [append_eq_prefixedBy a, append_eq_prefixedBy (a.prefixedBy base), prefixedBy_assoc]

theorem PendingCommand.resolve_prefixedBy (c : PendingCommand) (owner base : Address) :
    (c.resolve owner).prefixedBy base = c.resolve (owner.prefixedBy base) := by
  simp only [resolve, Command.prefixedBy]
  congr 1
  simp [Address.prefixedBy]

namespace Script

/-- The script with its commands below another address. -/
def prefixedBy (s : Script) (base : Address) : Script := ⟨s.commands.map (·.prefixedBy base)⟩

@[simp] theorem prefixedBy_empty (base : Address) : empty.prefixedBy base = empty :=
  congrArg mk Array.map_empty

@[simp] theorem toList_prefixedBy (s : Script) (base : Address) :
    (s.prefixedBy base).toList = s.toList.map (·.prefixedBy base) :=
  Array.toList_map

@[simp] theorem size_prefixedBy (s : Script) (base : Address) : (s.prefixedBy base).size = s.size :=
  Array.size_map

theorem push_prefixedBy (s : Script) (c : Command) (base : Address) :
    (s.prefixedBy base).push (c.prefixedBy base) = (s.push c).map (·.prefixedBy base) := by
  simp only [push, size_prefixedBy]
  split
  · rfl
  · exact congrArg (Except.ok ∘ mk) Array.map_push.symm

theorem extend_prefixedBy (s t : Script) (base : Address) :
    (s.prefixedBy base).extend (t.prefixedBy base) = (s.extend t).map (·.prefixedBy base) := by
  simp only [extend, size_prefixedBy]
  split
  · rfl
  · exact congrArg (Except.ok ∘ mk) Array.map_append.symm

end Script

/-- The state with the commands of its script below another address. -/
def CompilationState.prefixedBy (s : CompilationState δ) (base : Address) : CompilationState δ :=
  { s with script := s.script.prefixedBy base }

namespace Compilation

/-- The computation `m'` does what `m` does, with its commands below `base`. -/
def Prefixes (base : Address) (m m' : ExceptT ε (StateM (CompilationState δ)) α) : Prop :=
  ∀ s, m' (s.prefixedBy base) = ((m s).1, (m s).2.prefixedBy base)

namespace Prefixes

section

variable {δ ε α β : Type} {base : Address} {m m' : ExceptT ε (StateM (CompilationState δ)) α}

theorem pure (a : α) :
    Prefixes base (pure a : ExceptT ε (StateM (CompilationState δ)) α) (pure a) := fun _ => rfl

theorem throw (e : ε) :
    Prefixes base (throw e : ExceptT ε (StateM (CompilationState δ)) α) (throw e) := fun _ => rfl

theorem bind {f f' : α → ExceptT ε (StateM (CompilationState δ)) β} (h : Prefixes base m m')
    (hf : ∀ a, Prefixes base (f a) (f' a)) : Prefixes base (m >>= f) (m' >>= f') := by
  intro s
  rw [stateful_bind_apply, stateful_bind_apply, h s]
  cases hm : m s with
  | mk result s₁ =>
    cases result with
    | ok a => exact hf a s₁
    | error e => rfl

theorem discard (h : Prefixes base m m') : Prefixes base (discard m) (discard m') := by
  have hmap (m : ExceptT ε (StateM (CompilationState δ)) α) :
      (Functor.discard m : ExceptT ε (StateM (CompilationState δ)) PUnit) =
        m >>= fun _ => Pure.pure () :=
    (bind_pure_comp _ m).symm
  rw [hmap, hmap]
  exact h.bind fun _ => .pure _

end

variable {δ α β σ : Type} {base : Address} {grammar : GrammarNamespace}

/-! ### Steps -/

theorem mapM {f : β → Compilation δ α} (h : ∀ b, Prefixes base (f b) (f b)) (bs : List β) :
    Prefixes base (bs.mapM f) (bs.mapM f) := by
  induction bs with
  | nil => exact .pure _
  | cons b bs ih =>
    rw [List.mapM_cons]
    exact (h b).bind fun _ => ih.bind fun _ => .pure _

theorem getCursor : Prefixes base (getCursor : Compilation δ Cursor) getCursor := fun _ => rfl

theorem location : Prefixes base (location : Compilation δ Position) location := fun _ => rfl

theorem check (result : Except CompilationError α) :
    Prefixes base (check result : Compilation δ α) (check result) := fun _ => rfl

theorem emit (event : LogEvent) : Prefixes base (emit event : Compilation δ Unit) (emit event) :=
  fun _ => rfl

theorem move (step : Cursor → Cursor.Moved α) :
    Prefixes base (move step : Compilation δ α) (move step) := by
  intro s
  have hcursor : (s.prefixedBy base).cursor = s.cursor := rfl
  simp only [Compilation.move, hcursor]
  split <;> rfl

theorem push (c : Command) :
    Prefixes base (push c : Compilation δ Unit) (push (c.prefixedBy base)) := by
  intro s
  simp only [Compilation.push, CompilationState.prefixedBy, Script.push_prefixedBy]
  cases s.script.push c <;> rfl

theorem extend (commands : Script) :
    Prefixes base (extend commands : Compilation δ Unit) (extend (commands.prefixedBy base)) := by
  intro s
  simp only [Compilation.extend, CompilationState.prefixedBy, Script.extend_prefixedBy]
  cases s.script.extend commands <;> rfl

/-- A compilation on a script of its own begins below the address as it does without it, so only the
script that it gives is another one. -/
theorem isolated_apply {inner inner' : Compilation δ α} (h : Prefixes base inner inner')
    (s : CompilationState δ) : isolated inner' s =
      ((isolated inner s).1.map fun x => (x.1, x.2.prefixedBy base), (isolated inner s).2) := by
  have hin := h { s with script := .empty }
  simp only [CompilationState.prefixedBy, Script.prefixedBy_empty] at hin
  simp only [isolated, hin]
  cases inner { s with script := .empty } with
  | mk result s₁ => cases result <;> rfl

theorem isolated_bind {inner inner' : Compilation δ α} {f f' : α × Script → Compilation δ β}
    (h : Prefixes base inner inner')
    (hf : ∀ a script, Prefixes base (f (a, script)) (f' (a, script.prefixedBy base))) :
    Prefixes base (isolated inner >>= f) (isolated inner' >>= f') := by
  intro s
  have hscript : isolated inner (s.prefixedBy base) =
      ((isolated inner s).1, (isolated inner s).2.prefixedBy base) := by
    simp only [isolated, CompilationState.prefixedBy]
    cases inner { s with script := .empty } with
    | mk result s₁ => cases result <;> rfl
  rw [bind_apply, bind_apply, h.isolated_apply, hscript]
  cases isolated inner s with
  | mk result s₁ =>
    cases result with
    | ok x => exact hf x.1 x.2 s₁
    | error e => rfl

/-! ### Elements and attributes -/

theorem unexpectedElement :
    Prefixes base (unexpectedElement : Compilation δ α) unexpectedElement :=
  getCursor.bind fun _ => .throw _

theorem requireNamespace :
    Prefixes base (requireNamespace grammar : Compilation δ Unit) (requireNamespace grammar) := by
  apply getCursor.bind
  intro cursor
  split
  · exact .pure _
  · exact .throw _

theorem nextInside : Prefixes base (nextInside : Compilation δ Tag) nextInside := by
  apply (move _).bind
  intro tag
  split
  · exact getCursor.bind fun _ => .throw _
  · exact .pure _

theorem nextElement :
    Prefixes base (nextElement grammar : Compilation δ (Option ElementName)) (nextElement grammar) := by
  apply nextInside.bind
  intro tag
  split
  · exact requireNamespace.bind fun _ => getCursor.bind fun _ => .pure _
  · exact .pure _

theorem visitAmong {visit visit' : σ → ElementName → Compilation δ σ}
    (h : ∀ seen element, Prefixes base (visit seen element) (visit' seen element)) (seen : σ)
    (pending : List Xml.Event) :
    Prefixes base (visitAmong grammar visit seen pending) (visitAmong grammar visit' seen pending) := by
  induction pending generalizing seen with
  | nil => exact nextElement.discard.bind fun _ => .pure _
  | cons event pending ih =>
    apply nextElement.bind
    intro element
    cases element with
    | none => exact .pure _
    | some element => exact (h seen element).bind ih

theorem forChildren {visit visit' : σ → ElementName → Compilation δ σ}
    (h : ∀ seen element, Prefixes base (visit seen element) (visit' seen element)) (seen : σ) :
    Prefixes base (forChildren grammar seen visit) (forChildren grammar seen visit') :=
  getCursor.bind fun _ => visitAmong h seen _

theorem requireNoContent :
    Prefixes base (requireNoContent : Compilation δ Unit) requireNoContent := by
  apply nextInside.bind
  intro tag
  split
  · exact unexpectedElement
  · exact .pure _

theorem attributes :
    Prefixes base (attributes : Compilation δ (List (AttributeName × String))) attributes := by
  apply getCursor.bind
  intro cursor
  apply mapM
  intro a
  dsimp only
  split
  · exact .throw _
  · exact .pure _

theorem requireNoAttributes :
    Prefixes base (requireNoAttributes : Compilation δ Unit) requireNoAttributes := by
  apply getCursor.bind
  intro cursor
  split
  · exact .pure _
  · exact .throw _

theorem readInto (construct : Construct) (ps : Parameters) :
    Prefixes base (readInto construct ps : Compilation δ Construct.Reading) (readInto construct ps) :=
  getCursor.bind fun _ => attributes.bind fun _ => .check _

theorem readParameters (construct : Construct) (ps : Parameters) :
    Prefixes base (readParameters construct ps : Compilation δ Parameters)
      (readParameters construct ps) :=
  (readInto construct ps).bind fun _ => .pure _

theorem readNamed (construct : Construct) :
    Prefixes base (readNamed construct : Compilation δ (String × Parameters)) (readNamed construct) :=
  (readInto construct .empty).bind fun _ => .pure _

theorem once (seen : ElementSet) (element : ElementName) :
    Prefixes base (once seen element : Compilation δ ElementSet) (once seen element) :=
  location.bind fun _ => .check _

theorem exclusive (seen : ElementSet) (element : ElementName) (group : List ElementName) :
    Prefixes base (exclusive seen element group : Compilation δ ElementSet)
      (exclusive seen element group) :=
  location.bind fun _ => .check _

/-- An element that adds one command. -/
theorem push_append (owner : Address) {key value : String} {ps : Parameters} :
    Prefixes base (Compilation.push ⟨owner.append key value, ps⟩ : Compilation δ Unit)
      (Compilation.push ⟨(owner.prefixedBy base).append key value, ps⟩) := by
  rw [← Address.append_prefixedBy]
  exact push _

theorem leaf (construct : Construct) (owner : Address) :
    Prefixes base (leaf construct owner : Compilation δ Unit)
      (leaf construct (owner.prefixedBy base)) :=
  (readParameters construct .empty).bind fun _ => requireNoContent.bind fun _ => push _

theorem leaf_append (construct : Construct) (owner : Address) {key value : String} :
    Prefixes base (Compilation.leaf construct (owner.append key value) : Compilation δ Unit)
      (Compilation.leaf construct ((owner.prefixedBy base).append key value)) := by
  rw [← Address.append_prefixedBy]
  exact leaf construct _

/-! ### Properties and connections -/

theorem property (owner : Address) (valueRequired : Bool) (names : NameSet) :
    Prefixes base (property owner valueRequired names : Compilation δ NameSet)
      (property (owner.prefixedBy base) valueRequired names) := by
  apply location.bind
  intro position
  apply (readNamed _).bind
  intro resource
  apply (check _).bind
  intro names
  apply requireNoContent.bind
  intro _
  exact (push_append _).bind fun _ => .pure _

theorem properties (owner : Address) (valueRequired : Bool) :
    Prefixes base (properties grammar owner valueRequired : Compilation δ Unit)
      (properties grammar (owner.prefixedBy base) valueRequired) := by
  apply requireNoAttributes.bind
  intro _
  apply discard
  apply forChildren
  intro names element
  split
  · exact property owner valueRequired names
  · exact unexpectedElement

theorem onlyProperties (owner : Address) (valueRequired : Bool) :
    Prefixes base (onlyProperties grammar owner valueRequired : Compilation δ Unit)
      (onlyProperties grammar (owner.prefixedBy base) valueRequired) := by
  apply discard
  apply forChildren
  intro seen element
  split
  · exact (once _ _).bind fun _ => (properties owner valueRequired).bind fun _ => .pure _
  · exact unexpectedElement

theorem ldapConnection (owner : Address) (names : NameSet) :
    Prefixes base (ldapConnection grammar owner names : Compilation δ NameSet)
      (ldapConnection grammar (owner.prefixedBy base) names) := by
  apply location.bind
  intro position
  apply (readNamed _).bind
  intro resource
  apply (check _).bind
  intro names
  apply (push_append _).bind
  intro _
  rw [← Address.append_prefixedBy]
  apply (onlyProperties _ true).bind
  intro _
  exact (emit _).bind fun _ => .pure _

theorem outboundConnections (owner : Address) :
    Prefixes base (outboundConnections grammar owner : Compilation δ Unit)
      (outboundConnections grammar (owner.prefixedBy base)) := by
  apply requireNoAttributes.bind
  intro _
  apply discard
  apply forChildren
  intro names element
  split
  · exact ldapConnection owner names
  · exact unexpectedElement

/-! ### Identities -/

theorem partOf (construct : Construct) (ps : Parameters) :
    Prefixes base (partOf construct ps : Compilation δ Parameters) (partOf construct ps) :=
  (readParameters construct ps).bind fun _ => requireNoContent.bind fun _ => .pure _

theorem ssl (realm : Address) : Prefixes base (ssl grammar realm : Compilation δ Unit)
    (ssl grammar (realm.prefixedBy base)) := by
  apply (readParameters _ _).bind
  intro ps
  apply (forChildren _ _).bind
  · rintro ⟨seen, ps⟩
    exact push_append realm
  · rintro ⟨seen, ps⟩ element
    dsimp only
    split
    · exact (once _ _).bind fun _ => (partOf _ _).bind fun _ => .pure _
    · exact (once _ _).bind fun _ => (partOf _ _).bind fun _ => .pure _
    · exact unexpectedElement

theorem keytab (kerberos : Address) : Prefixes base (keytab kerberos : Compilation δ Unit)
    (keytab (kerberos.prefixedBy base)) :=
  (readNamed _).bind fun _ => requireNoContent.bind fun _ => push_append _

theorem kerberosIdentity (realm : Address) :
    Prefixes base (kerberosIdentity grammar realm : Compilation δ Unit)
      (kerberosIdentity grammar (realm.prefixedBy base)) := by
  apply requireNoAttributes.bind
  intro _
  apply (push_append _).bind
  intro _
  rw [← Address.append_prefixedBy]
  apply forChildren
  intro _ element
  split
  · exact keytab _
  · exact unexpectedElement

theorem serverIdentities (realm : Address) :
    Prefixes base (serverIdentities grammar realm : Compilation δ Unit)
      (serverIdentities grammar (realm.prefixedBy base)) := by
  apply requireNoAttributes.bind
  intro _
  apply discard
  apply forChildren
  intro seen element
  split
  · exact (once _ _).bind fun _ => (leaf_append _ realm).bind fun _ => .pure _
  · exact (once _ _).bind fun _ => (ssl realm).bind fun _ => .pure _
  · exact (once _ _).bind fun _ => (kerberosIdentity realm).bind fun _ => .pure _
  · exact unexpectedElement

/-! ### Directories -/

theorem cache : Prefixes base (cache : Compilation δ PendingCommand) cache :=
  (readInto _ _).bind fun _ => requireNoContent.bind fun _ => .pure _

theorem acceptInScope (alternatives : List ElementName) (scope : FilterScope)
    (element : ElementName) :
    Prefixes base (acceptInScope alternatives scope element : Compilation δ (FilterScope × Bool))
      (acceptInScope alternatives scope element) := by
  apply location.bind
  intro position
  split
  · split
    · exact .throw _
    · exact unexpectedElement
  · split
    · exact .pure _
    · split
      · split
        · exact .throw _
        · exact cache.bind fun _ => .pure _
      · exact unexpectedElement

theorem filterScope {readFilter : Parameters → ElementName → Compilation δ Parameters}
    (h : ∀ ps element, Prefixes base (readFilter ps element) (readFilter ps element))
    (alternatives : List ElementName) (ps : Parameters) :
    Prefixes base (filterScope grammar alternatives ps readFilter)
      (filterScope grammar alternatives ps readFilter) := by
  apply (forChildren _ _).bind
  · rintro ⟨scope, ps⟩
    dsimp only
    split
    · exact .pure _
    · exact location.bind fun _ => .throw _
  · rintro ⟨scope, ps⟩ element
    apply (acceptInScope _ _ _).bind
    rintro ⟨scope, isFilter⟩
    dsimp only
    split
    · exact (h _ _).bind fun _ => .pure _
    · exact .pure _

/-- A cache is addressed below its owner, so it follows where the owner goes. -/
theorem pushWithCache (owner : Command) (cache : Option PendingCommand) :
    Prefixes base (pushWithCache owner cache : Compilation δ Unit)
      (pushWithCache (owner.prefixedBy base) cache) := by
  apply (push owner).bind
  intro _
  cases cache with
  | none => exact .pure _
  | some cache =>
    dsimp only
    rw [show (owner.prefixedBy base).address = owner.address.prefixedBy base from rfl,
      ← PendingCommand.resolve_prefixedBy]
    exact push _

theorem pushWithCache_append (owner : Address) {key value : String} {ps : Parameters}
    (cache : Option PendingCommand) :
    Prefixes base (Compilation.pushWithCache ⟨owner.append key value, ps⟩ cache : Compilation δ Unit)
      (Compilation.pushWithCache ⟨(owner.prefixedBy base).append key value, ps⟩ cache) := by
  rw [← Address.append_prefixedBy]
  exact pushWithCache _ cache

theorem ldapAuthentication (realm : Address) :
    Prefixes base (ldapAuthentication grammar realm : Compilation δ Unit)
      (ldapAuthentication grammar (realm.prefixedBy base)) := by
  apply (readParameters _ _).bind
  intro ps
  apply (filterScope _ _ _).bind
  · rintro ⟨filter, cache, ps⟩
    exact pushWithCache_append _ cache
  · intro ps filter
    exact partOf _ _

theorem usernameToDn (ldap : Address) : Prefixes base (usernameToDn grammar ldap : Compilation δ Unit)
    (usernameToDn grammar (ldap.prefixedBy base)) := by
  apply (readParameters _ _).bind
  intro ps
  apply (filterScope _ _ _).bind
  · rintro ⟨filter, cache, ps⟩
    exact pushWithCache_append _ cache
  · intro ps filter
    split
    · exact requireNoAttributes.bind fun _ => requireNoContent.bind fun _ => .pure _
    · exact partOf _ _

theorem groupToPrincipal (ps : Parameters) :
    Prefixes base (groupToPrincipal grammar ps : Compilation δ Parameters)
      (groupToPrincipal grammar ps) := by
  apply (readParameters _ _).bind
  intro ps
  apply (forChildren _ _).bind
  · intro x
    exact .pure _
  · rintro ⟨seen, ps⟩ element
    dsimp only
    split
    · exact (once _ _).bind fun _ => (partOf _ _).bind fun _ => .pure _
    · exact unexpectedElement

theorem groupSearch (ldap : Address) : Prefixes base (groupSearch grammar ldap : Compilation δ Unit)
    (groupSearch grammar (ldap.prefixedBy base)) := by
  apply (readParameters _ _).bind
  intro ps
  apply (filterScope _ _ _).bind
  · rintro ⟨filter, cache, ps⟩
    exact pushWithCache_append _ cache
  · intro ps filter
    split
    · exact groupToPrincipal ps
    · exact partOf _ _

theorem ldapAuthorization (realm : Address) :
    Prefixes base (ldapAuthorization grammar realm : Compilation δ Unit)
      (ldapAuthorization grammar (realm.prefixedBy base)) := by
  apply (readParameters _ _).bind
  intro ps
  apply (push_append _).bind
  intro _
  rw [← Address.append_prefixedBy]
  apply discard
  apply forChildren
  intro seen element
  split
  · exact (once _ _).bind fun _ => (usernameToDn _).bind fun _ => .pure _
  · exact (once _ _).bind fun _ => (groupSearch _).bind fun _ => .pure _
  · exact unexpectedElement

/-! ### Authentication and authorization -/

theorem plugInSource (owner : Address) (withMechanism : Bool) :
    Prefixes base (plugInSource grammar owner withMechanism : Compilation δ Unit)
      (plugInSource grammar (owner.prefixedBy base) withMechanism) :=
  (readParameters _ _).bind fun _ => (push _).bind fun _ => onlyProperties owner false

theorem password : Prefixes base (password grammar : Compilation δ String) (password grammar) := by
  apply (forChildren _ _).bind
  · intro found
    split
    · split
      · exact location.bind fun _ => .throw _
      · exact .pure _
    · exact location.bind fun _ => .throw _
  · intro found element
    split
    · split
      · exact location.bind fun _ => .throw _
      · exact requireNoAttributes.bind fun _ => (move _).bind fun _ => .pure _
    · exact unexpectedElement

theorem user (users : Address) (names : NameSet) :
    Prefixes base (user grammar users names : Compilation δ NameSet)
      (user grammar (users.prefixedBy base) names) := by
  apply location.bind
  intro position
  apply (readNamed _).bind
  intro resource
  apply (check _).bind
  intro names
  apply password.bind
  intro password
  exact (push_append _).bind fun _ => .pure _

theorem users (realm : Address) : Prefixes base (users grammar realm : Compilation δ Unit)
    (users grammar (realm.prefixedBy base)) := by
  apply requireNoAttributes.bind
  intro _
  apply (push_append _).bind
  intro _
  rw [← Address.append_prefixedBy]
  apply discard
  apply forChildren
  intro names element
  split
  · exact user _ names
  · exact unexpectedElement

theorem authenticationSource (realm : Address) (element : ElementName) :
    Prefixes base (authenticationSource grammar realm element : Compilation δ Unit)
      (authenticationSource grammar (realm.prefixedBy base) element) := by
  simp only [Compilation.authenticationSource, ← Address.append_prefixedBy]
  split
  · exact leaf _ _
  · exact leaf _ _
  · exact leaf _ _
  · exact leaf _ _
  · exact ldapAuthentication realm
  · exact leaf _ _
  · exact users realm
  · exact plugInSource _ true
  · exact unexpectedElement

theorem authentication (realm : Address) :
    Prefixes base (authentication grammar realm : Compilation δ Unit)
      (authentication grammar (realm.prefixedBy base)) := by
  apply requireNoAttributes.bind
  intro _
  apply discard
  apply forChildren
  intro seen element
  split
  iterate 3 exact (once _ _).bind fun _ => (authenticationSource realm _).bind fun _ => .pure _
  iterate 5 exact (exclusive _ _ _).bind fun _ => (authenticationSource realm _).bind fun _ => .pure _
  exact unexpectedElement

theorem authorization (realm : Address) :
    Prefixes base (authorization grammar realm : Compilation δ (Option Value))
      (authorization grammar (realm.prefixedBy base)) := by
  apply (readParameters _ _).bind
  intro ps
  refine .bind (discard (forChildren ?_ _)) fun _ => .pure _
  intro seen element
  simp only [← Address.append_prefixedBy]
  split
  · exact (exclusive _ _ _).bind fun _ => (leaf _ _).bind fun _ => .pure _
  · exact (exclusive _ _ _).bind fun _ => (plugInSource _ false).bind fun _ => .pure _
  · exact (exclusive _ _ _).bind fun _ => (ldapAuthorization realm).bind fun _ => .pure _
  · exact unexpectedElement

/-! ### Realms -/

theorem plugIn (realm : Address) (modules : NameSet) :
    Prefixes base (plugIn realm modules : Compilation δ NameSet)
      (plugIn (realm.prefixedBy base) modules) := by
  apply location.bind
  intro position
  apply (readNamed _).bind
  intro resource
  apply (check _).bind
  intro modules
  apply requireNoContent.bind
  intro _
  exact (push_append _).bind fun _ => .pure _

theorem plugIns (realm : Address) : Prefixes base (plugIns grammar realm : Compilation δ Unit)
    (plugIns grammar (realm.prefixedBy base)) := by
  apply requireNoAttributes.bind
  intro _
  apply discard
  apply forChildren
  intro modules element
  split
  · exact plugIn realm modules
  · exact unexpectedElement

theorem realmContent (realm : Address) :
    Prefixes base (realmContent grammar realm : Compilation δ (Option Value))
      (realmContent grammar (realm.prefixedBy base)) := by
  refine .bind (forChildren ?_ _) fun _ => .pure _
  rintro ⟨seen, mapping⟩ element
  dsimp only
  split
  · exact (once _ _).bind fun _ => (plugIns realm).bind fun _ => .pure _
  · exact (once _ _).bind fun _ => (serverIdentities realm).bind fun _ => .pure _
  · exact (once _ _).bind fun _ => (authentication realm).bind fun _ => .pure _
  · exact (once _ _).bind fun _ => (authorization realm).bind fun _ => .pure _
  · exact unexpectedElement

theorem securityRealm (management : Address) (names : NameSet) :
    Prefixes base (securityRealm grammar management names : Compilation δ NameSet)
      (securityRealm grammar (management.prefixedBy base) names) := by
  apply location.bind
  intro position
  apply (readNamed _).bind
  intro resource
  apply (check _).bind
  intro names
  dsimp only
  rw [← Address.append_prefixedBy]
  apply (realmContent _).isolated_bind
  intro mapping content
  dsimp only
  rw [Script.size_prefixedBy]
  exact (push _).bind fun _ => (extend content).bind fun _ => (emit _).bind fun _ => .pure _

theorem securityRealms (management : Address) :
    Prefixes base (securityRealms grammar management : Compilation δ Unit)
      (securityRealms grammar (management.prefixedBy base)) := by
  apply requireNoAttributes.bind
  intro _
  apply discard
  apply forChildren
  intro names element
  split
  · exact securityRealm management names
  · exact unexpectedElement

/-! ### The management element -/

/-- The delegate does the same below every address. -/
def Respects (delegate : Delegate δ) : Prop :=
  ∀ category management base,
    Prefixes base (delegate.offer category management)
      (delegate.offer category (management.prefixedBy base))

theorem respects_declining : Respects Delegate.declining := fun _ _ _ => .pure false

variable {delegate : Delegate δ}

theorem offer {builtIn builtIn' : Compilation δ Unit} (hd : Respects delegate)
    (h : Prefixes base builtIn builtIn') (category : Category) (management : Address) :
    Prefixes base (offer delegate category management builtIn)
      (offer delegate category (management.prefixedBy base) builtIn') := by
  apply (hd category management base).bind
  intro taken
  split
  · exact emit _
  · exact h

theorem managementChild (hd : Respects delegate) (management : Address) (seen : ElementSet)
    (element : ElementName) :
    Prefixes base (managementChild grammar delegate management seen element)
      (managementChild grammar delegate (management.prefixedBy base) seen element) := by
  simp only [Compilation.managementChild]
  split
  · exact (once _ _).bind fun _ => (offer hd (securityRealms management) _ _).bind fun _ => .pure _
  · exact (once _ _).bind fun _ =>
      (offer hd (outboundConnections management) _ _).bind fun _ => .pure _
  · exact (once _ _).bind fun _ => (offer hd unexpectedElement _ _).bind fun _ => .pure _
  · exact (offer hd unexpectedElement _ _).bind fun _ => .pure _
  · exact (offer hd unexpectedElement _ _).bind fun _ => .pure _
  · exact (once _ _).bind fun _ => (leaf_append _ management).bind fun _ => .pure _
  · exact unexpectedElement

/-- What stands inside a management element. -/
theorem managementContent (grammar : GrammarNamespace) (hd : Respects delegate)
    (owner base : Address) :
    Prefixes base
      (Compilation.forChildren grammar ElementSet.empty
        (Compilation.managementChild grammar delegate (owner.append "core-service" "management")))
      (Compilation.forChildren grammar ElementSet.empty (Compilation.managementChild grammar delegate
        ((owner.prefixedBy base).append "core-service" "management"))) := by
  rw [← Address.append_prefixedBy]
  exact forChildren (managementChild hd _) _

theorem management (hd : Respects delegate) (owner : Address) (native : Bool) :
    Prefixes base (management grammar delegate owner native)
      (management grammar delegate (owner.prefixedBy base) native) := by
  apply requireNoAttributes.bind
  intro _
  apply (emit _).bind
  intro _
  apply (managementContent grammar hd owner base).isolated_bind
  intro seen commands
  dsimp only
  rw [Script.size_prefixedBy]
  split
  · exact location.bind fun _ => (throw _).bind fun _ => (extend _).bind fun _ => emit _
  · exact (extend _).bind fun _ => emit _

end Prefixes

/-! ### Behind commands that are there -/

/-- The states differ in the commands behind those of `s` only: those of `t'` are below `base`. -/
def Relocated (base : Address) (s t t' : CompilationState δ) : Prop :=
  ∃ commands, t.script.toList = s.script.toList ++ commands ∧
    t'.script.toList = s.script.toList ++ commands.map (·.prefixedBy base) ∧
    t' = { t with script := t'.script }

/-- With one result, the computations differ in the commands that they add only. -/
def Relocates (base : Address) (m m' : Compilation δ α) : Prop :=
  ∀ s, (m' s).1 = (m s).1 ∧ Relocated base s (m s).2 (m' s).2

variable {δ α β : Type} {base : Address}

theorem relocated_of_script_eq {s t : CompilationState δ} (h : t.script = s.script) :
    Relocated base s t t :=
  ⟨[], by simp [h], by simp [h], rfl⟩

theorem Relocates.moved {m m' : Compilation δ α} (h : Relocates base m m')
    {s s₁ : CompilationState δ} (hs : s₁.script = s.script) :
    (m' s₁).1 = (m s₁).1 ∧ Relocated base s (m s₁).2 (m' s₁).2 := by
  obtain ⟨hresult, commands, ht, ht', hstate⟩ := h s₁
  rw [hs] at ht ht'
  exact ⟨hresult, commands, ht, ht', hstate⟩

theorem KeepsScript.bind_relocates {m : Compilation δ α} {f f' : α → Compilation δ β}
    (h : KeepsScript m) (hf : ∀ a, Relocates base (f a) (f' a)) :
    Relocates base (m >>= f) (m >>= f') := by
  intro s
  have hm := h s
  rw [bind_apply, bind_apply]
  cases hs : m s with
  | mk result s₁ =>
    rw [hs] at hm
    cases result with
    | ok a => exact (hf a).moved hm
    | error e => exact ⟨rfl, relocated_of_script_eq hm⟩

theorem Prefixes.isolated_bind_relocates {inner inner' : Compilation δ α}
    {f f' : α × Script → Compilation δ β} (h : Prefixes base inner inner')
    (hf : ∀ a script, Relocates base (f (a, script)) (f' (a, script.prefixedBy base))) :
    Relocates base (isolated inner >>= f) (isolated inner' >>= f') := by
  intro s
  have hm := keepsScript_isolated inner s
  rw [bind_apply, bind_apply, h.isolated_apply]
  cases hs : isolated inner s with
  | mk result s₁ =>
    rw [hs] at hm
    cases result with
    | ok x => exact (hf x.1 x.2).moved hm
    | error e => exact ⟨rfl, relocated_of_script_eq hm⟩

/-- There is room for commands below one address where there is room for them below another. -/
theorem relocates_extend_succeed (commands : Script) (code : Code) (message : String)
    (facts : List (String × String)) :
    Relocates base (do extend commands; succeed code message facts : Compilation δ Unit)
      (do extend (commands.prefixedBy base); succeed code message facts) := by
  intro s
  by_cases hfull : Limits.commands < s.script.size + commands.size
  · have hfull' : Limits.commands < s.script.size + (commands.prefixedBy base).size := by
      rwa [Script.size_prefixedBy]
    rw [bind_apply, bind_apply, extend_of_full hfull, extend_of_full hfull']
    exact ⟨rfl, relocated_of_script_eq rfl⟩
  · simp only [bind_apply, extend, Script.extend, Script.size_prefixedBy, if_neg hfull]
    refine ⟨rfl, commands.toList, Array.toList_append, ?_, rfl⟩
    rw [← Script.toList_prefixedBy]
    exact Array.toList_append

/-- Behind whatever commands there are, a management element comes to one result below every address,
and adds the same commands below it. -/
theorem relocates_management (grammar : GrammarNamespace) {delegate : Delegate δ}
    (hd : Prefixes.Respects delegate) (owner base : Address) (native : Bool) :
    Relocates base (management grammar delegate owner native)
      (management grammar delegate (owner.prefixedBy base) native) := by
  apply keepsScript_requireNoAttributes.bind_relocates
  intro _
  apply (keepsScript_emit _).bind_relocates
  intro _
  apply (Prefixes.managementContent grammar hd owner base).isolated_bind_relocates
  intro seen commands
  dsimp only
  rw [Script.size_prefixedBy]
  split
  · apply keepsScript_location.bind_relocates
    intro position
    exact (keepsScript_throw _).bind_relocates fun _ => relocates_extend_succeed _ _ _ _
  · apply relocates_extend_succeed

end Compilation
end ManagementScript
