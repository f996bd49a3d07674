import ManagementScript.Compilation.Authentication
import ManagementScript.Proofs.Compilation.Directory
import ManagementScript.Proofs.Compilation.Properties

/-! The compilation of the sources that users are authenticated by. -/

namespace ManagementScript.Compilation

open Resource (commandsOfAll)

variable {δ : Type} (grammar : GrammarNamespace) (owner : Address)

theorem compiles_plugInSource (withMechanism : Bool) :
    Compiles (plugInSource grammar owner withMechanism : Compilation δ Unit)
      (·.IsPlugInSource grammar withMechanism)
      fun e => .ofCommands (⟨owner, (Construct.plugInSource withMechanism).parametersOf e⟩ ::
        commandsOfAll owner (e.propertiesInside false)) := by
  apply Reads.congr
  · apply Reads.readParameters_bind (Construct.regular_plugInSource _) (Construct.fresh_empty _)
    intro t
    exact (adds_push _).bind_reads (compiles_onlyProperties grammar owner false)
  · intro e _
    exact ⟨fun h => ⟨h.1, h.2.2⟩, fun h => ⟨h.tag, trivial, h.inside⟩⟩
  · intro e _
    rfl
  · intro e _
    rfl

/-! ### Users -/

theorem visitsBy_password : VisitsBy (fun password element =>
    (match element with
    | .password => do
      if password.isSome then throw (.duplicateElement element.localName (← location))
      requireNoAttributes
      return some (Text.trimmed (← move Cursor.elementText))
    | _ => unexpectedElement : Compilation δ (Option String)))
    (fun past => (past.map (·.trimmedText)).head?) (fun _ _ => False)
    (fun c => c.kind = .password ∧ c.attributes = [] ∧ c.children = []) fun _ => .nil := by
  intro past element
  cases element with
  | password =>
    cases past with
    | nil =>
      apply Reads.readsAs
      · apply Reads.requireNoAttributes_bind
        exact reads_elementText.bind fun _ => adds_pure _
      · intro e he
        simp [he]
      · intro e _ _
        rfl
      · intro e _ _
        rfl
    | cons c past =>
      have hA (e : Element) : ¬((∀ d ∈ c :: past, False) ∧
          e.kind = .password ∧ e.attributes = [] ∧ e.children = []) :=
        fun h => h.1 c (List.mem_cons_self ..)
      exact (Reads.location_bind fun p => reads_throw _ hA).anyKind _
  | _ => exact readsAs_unexpectedElement fun e he => by simp [he]

theorem reads_password : Reads (password grammar : Compilation δ String)
    (fun e => ∃ c, e.children = [c] ∧ e.IsBlank ∧ c.namespaceUri = some grammar.uri ∧
      c.kind = .password ∧ c.attributes = [] ∧ c.children = [] ∧ c.trimmedText ≠ "")
    (fun e => (e.children.map (·.trimmedText)).headD "") fun _ => .nil := by
  apply Reads.congr
  · apply Reads.bind visitsBy_password.reads (Q := fun e => (e.children.map (·.trimmedText)).headD "" ≠ "")
      (b := fun e => (e.children.map (·.trimmedText)).headD "") (o := fun _ => .nil)
    intro e
    cases e.children with
    | nil => exact Adds.location_bind fun p => adds_throw _ fun h => h rfl
    | cons c cs =>
      simp only [List.map_cons, List.head?_cons, List.headD_cons]
      split
      · next h =>
        exact Adds.location_bind fun p => adds_throw _ fun hne => hne (String.isEmpty_iff.1 h)
      · next h =>
        exact (adds_pure _).congr (iff_of_true trivial fun he => h (String.isEmpty_iff.2 he))
  · intro e _
    apply Iff.intro
    · intro ⟨h, hne⟩
      have hpair := h.compatible
      cases hc : e.children with
      | nil => simp [hc] at hne
      | cons c cs =>
        cases cs with
        | nil =>
          have hmem : c ∈ e.children := by simp [hc]
          obtain ⟨hk, ha, hch⟩ := h.accepted c hmem
          refine ⟨c, rfl, h.blank, h.namespaced c hmem, hk, ha, hch, ?_⟩
          simpa [hc] using hne
        | cons d ds =>
          rw [hc] at hpair
          exact (List.rel_of_pairwise_cons hpair (List.mem_cons_self ..)).elim
    · intro ⟨c, hc, hb, hn, hk, ha, hch, hne⟩
      refine ⟨⟨hb, ?_, ?_, ?_⟩, ?_⟩
      · simpa [hc] using hn
      · simp [hc]
      · simpa [hc] using ⟨hk, ha, hch⟩
      · simpa [hc] using hne
  · intro e _
    rfl
  · intro e _
    exact (Output.append_nil _).trans (Output.concat_nils _)

theorem takes_user (names : NameSet) :
    TakesNamed .username names (user grammar owner names : Compilation δ NameSet) (·.IsUser grammar)
      fun e => .ofCommands (e.user.commands owner) := by
  have hc : Construct.user.Regular := by decide
  have hname (e : Element) : Construct.user.nameOf e = e.nameBy .username :=
    Construct.nameOf_named ..
  apply Reads.congr
  · apply takes_reserved hc hname
    intro t
    apply (reads_password grammar).bind
    intro e
    exact (adds_push _).bind (adds_pure _)
  · intro e _
    exact ⟨fun h => ⟨h.1, h.2.1, h.2.2.1⟩, fun h => ⟨h.1, h.2.tag, h.2.inside, trivial, trivial⟩⟩
  · intro e _
    rfl
  · intro e _
    rfl

theorem compiles_eachUser (address : Address) : Compiles (do
    discard <| forChildren grammar NameSet.empty fun names element =>
      match element with
      | .user => user grammar address names
      | _ => unexpectedElement : Compilation δ Unit)
    (·.HoldsNamed grammar .user .username (Element.IsUser grammar))
    fun e => .ofCommands (commandsOfAll address (e.children.map (·.user))) := by
  simp only [Resource.commandsOfAll_map, ← Output.concat_ofCommands]
  apply Compiles.named (takes_user grammar address) fun _ => rfl
  intro names element he
  split
  · exact absurd rfl he
  · rfl

theorem compiles_users : Compiles (users grammar owner : Compilation δ Unit) (·.IsUsers grammar)
    fun e => .ofCommands (⟨owner.append "authentication" "users", .empty⟩ ::
      commandsOfAll (owner.append "authentication" "users") (e.children.map (·.user))) := by
  apply Compiles.plain
  apply ((adds_push _).bind_reads (compiles_eachUser grammar _)).congr
  · intro e _
    exact ⟨fun h => h.2, fun h => ⟨trivial, h⟩⟩
  · intro e _
    rfl
  · intro e _
    rfl

/-! ### Sources -/

theorem compiles_authentication :
    Compiles (authentication grammar owner : Compilation δ Unit) (·.IsAuthentication grammar)
      fun e => .ofCommands (commandsOfAll owner (e.children.map (·.authenticationSource))) := by
  have htruststore : (Construct.keyMaterial false).Regular := by decide
  have hlocal : Construct.localMechanism.Regular := by decide
  have hkerberos : Construct.kerberos.Regular := by decide
  have hjaas : Construct.jaas.Regular := by decide
  have hfile : (Construct.propertiesFile true).Regular := by decide
  simp only [Resource.commandsOfAll_map, ← Output.concat_ofCommands]
  apply Compiles.plain
  apply Compiles.apart
  intro seen element
  cases element with
  | truststore =>
    exact (compiles_leaf htruststore _).once (by decide)
      (fun e he => by simp only [Element.IsAuthenticationSource, he])
      fun e he => by simp only [Element.authenticationSource, he]; rfl
  | localMechanism =>
    exact (compiles_leaf hlocal _).once (by decide)
      (fun e he => by simp only [Element.IsAuthenticationSource, he])
      fun e he => by simp only [Element.authenticationSource, he]; rfl
  | kerberos =>
    exact (compiles_leaf hkerberos _).once (by decide)
      (fun e he => by simp only [Element.IsAuthenticationSource, he])
      fun e he => by simp only [Element.authenticationSource, he]; rfl
  | jaas =>
    exact (compiles_leaf hjaas _).exclusive (by decide)
      (fun e he => by simp only [Element.IsAuthenticationSource, he])
      fun e he => by simp only [Element.authenticationSource, he]; rfl
  | ldap =>
    exact (compiles_ldapAuthentication grammar owner).exclusive (by decide)
      (fun e he => by simp only [Element.IsAuthenticationSource, he])
      fun e he => by simp only [Element.authenticationSource, he]
  | properties =>
    exact (compiles_leaf hfile _).exclusive (by decide)
      (fun e he => by simp only [Element.IsAuthenticationSource, he])
      fun e he => by simp only [Element.authenticationSource, he]; rfl
  | users =>
    exact (compiles_users grammar owner).exclusive (by decide)
      (fun e he => by simp only [Element.IsAuthenticationSource, he])
      fun e he => by simp only [Element.authenticationSource, he]; rfl
  | plugIn =>
    exact (compiles_plugInSource grammar _ true).exclusive (by decide)
      (fun e he => by simp only [Element.IsAuthenticationSource, he])
      fun e he => by simp only [Element.authenticationSource, he]; rfl
  | _ =>
    exact takes_unexpectedElement fun e he => by
      simp only [Element.IsAuthenticationSource, he, not_false_eq_true]

end ManagementScript.Compilation
