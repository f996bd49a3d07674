import ManagementScript.Compilation.Identities
import ManagementScript.Proofs.Compilation.Scopes
import ManagementScript.Proofs.Management.Translation

/-! The compilation of the identities of a server. -/

namespace ManagementScript.Compilation

open Resource (commandsOfAll)

variable {δ : Type} (grammar : GrammarNamespace) (owner : Address)

theorem reads_partOf {c : Construct} {ps : Parameters} (hc : c.Regular) (hf : c.Fresh ps) :
    Reads (partOf c ps : Compilation δ Parameters) (·.IsLeaf c)
      (fun e => ps.setAll (c.entries e)) fun _ => .nil := by
  apply Reads.congr
  · apply Reads.readParameters_bind hc hf
    intro t
    exact compiles_requireNoContent.bind fun _ => adds_pure _
  · intro e _
    exact ⟨fun h => ⟨h.1, h.2.1⟩, fun h => ⟨h.tag, h.empty, trivial⟩⟩
  · intro e _
    rfl
  · intro e _
    rfl

/-! ### Parts of a resource -/

section Parts

variable {A : Element → Prop} {part : Element → List (String × Value)}

theorem readsAs_part {c : Construct} {seen : ElementSet} {ps : Parameters} (hc : c.Regular)
    (hf : seen.contains element = false → c.Fresh ps)
    (hA : ∀ e, e.kind = element → (A e ↔ e.IsLeaf c))
    (hpart : ∀ e, e.kind = element → part e = c.entries e) :
    ReadsAs element (do
        let seen ← once seen element
        return (seen, ← partOf c ps) : Compilation δ (ElementSet × Parameters))
      (fun e => seen.contains element = false ∧ A e)
      (fun e => (seen.insert element, ps.setAll (part e))) fun _ => .nil := by
  apply Reads.readsAs
  · apply (adds_once seen element).bind_reads_of
    intro hfree
    exact (reads_partOf hc (hf hfree)).bind fun _ => adds_pure _
  · intro e he
    rw [hA e he, and_true]
  · intro e he _
    rw [hpart e he]
  · intro e _ _
    rfl

/-- A scope whose children, each of them once, add parameters to those of the owner. -/
theorem reads_parts {ps : Parameters}
    {visit : ElementSet × Parameters → ElementName → Compilation δ (ElementSet × Parameters)}
    (part : Element → List (String × Value))
    (h : ∀ (past : List Element) (element : ElementName),
      let seen := ElementSet.ofList (past.map (·.kind))
      let ps := ps.setAll (past.flatMap part)
      ReadsAs element (visit (seen, ps) element) (fun e => seen.contains element = false ∧ A e)
        (fun e => (seen.insert element, ps.setAll (part e))) fun _ => .nil) :
    Reads (forChildren grammar (ElementSet.empty, ps) visit) (·.HoldsApart grammar [] A)
      (fun e => (.ofList (e.children.map (·.kind)), ps.setAll (e.children.flatMap part)))
      fun _ => .nil := by
  have hv : VisitsBy visit
      (fun past => (.ofList (past.map (·.kind)), ps.setAll (past.flatMap part)))
      (Element.Apart []) A fun _ => .nil := by
    intro past element s result s' hd he
    rw [h past element hd he]
    have hfree (nodes : List Node) := @ElementSet.free_ofList_iff past (s.cursor.element nodes) []
    subst he
    simp only [List.map_append, List.map_cons, List.map_nil, ElementSet.ofList_concat, ← hfree,
      List.flatMap_append, List.flatMap_cons, List.flatMap_nil, List.append_nil,
      Dictionary.setAll_append]
    rfl
  apply (@VisitsBy.reads _ _ grammar _ _ _ _ _ hv).congr
  · intro e _
    rfl
  · intro e _
    rfl
  · intro e _
    exact Output.concat_nils _

end Parts

/-! ### Server identities -/

/-- The lists of an engine are new where no engine was before. -/
theorem fresh_engine (t : Element) {past : List Element}
    (hfree : (ElementSet.ofList (past.map (·.kind))).contains .engine = false) :
    Construct.engine.Fresh
      ((Dictionary.empty.setAll (Construct.ssl.entries t)).setAll (past.flatMap Element.sslPart)) := by
  have hssl : ∀ d ∈ Construct.engine.parameters, d.2.kind = .list →
      ∀ d' ∈ Construct.ssl.parameters, d.2.parameter ≠ d'.2.parameter := by decide
  have hkey : ∀ d ∈ Construct.engine.parameters, d.2.kind = .list →
      ∀ d' ∈ (Construct.keyMaterial true).parameters, d.2.parameter ≠ d'.2.parameter := by
    decide
  apply Construct.Fresh.setAll
  · apply Construct.engine.fresh_empty.setAll
    intro x hx d hd hk he
    obtain ⟨d', hd', hp⟩ := Construct.exists_of_mem_entries hx
    exact hssl d hd hk d' hd' (he.trans hp.symm)
  · intro x hx d hd hk he
    obtain ⟨c, hc, hx⟩ := List.mem_flatMap.1 hx
    rw [ElementSet.contains_ofList, decide_eq_false_iff_not] at hfree
    rw [Element.sslPart] at hx
    split at hx
    · next hkind => exact hfree (List.mem_map.2 ⟨c, hc, hkind⟩)
    · obtain ⟨d', hd', hp⟩ := Construct.exists_of_mem_entries hx
      exact hkey d hd hk d' hd' (he.trans hp.symm)

theorem compiles_ssl : Compiles (ssl grammar owner : Compilation δ Unit) (·.IsSsl grammar)
    fun e => .ofCommands (e.ssl.commands owner) := by
  have hc : Construct.ssl.Regular := by decide
  have hengine : Construct.engine.Regular := by decide
  have hkey : (Construct.keyMaterial true).Regular := by decide
  have hlists : ∀ x ∈ (Construct.keyMaterial true).parameters, x.2.kind ≠ .list := by
    decide
  apply Reads.congr
  · apply Reads.readParameters_bind hc (Construct.fresh_empty _)
    intro t
    apply Reads.bind
    · apply reads_parts grammar (A := Element.IsSslPart) Element.sslPart
      intro past element
      cases element with
      | engine =>
        exact readsAs_part hengine (fresh_engine t)
          (fun e he => by simp only [Element.IsSslPart, he]) fun e he => by
            simp only [Element.sslPart, he]
      | keystore =>
        exact readsAs_part hkey (fun _ => Construct.fresh_of_noLists hlists _)
          (fun e he => by simp only [Element.IsSslPart, he]) fun e he => by
            simp only [Element.sslPart, he]
      | _ =>
        exact readsAs_unexpectedElement fun e he => by
          simp only [Element.IsSslPart, he, and_false, not_false_eq_true]
    · intro e
      exact adds_push _
  · intro e _
    exact ⟨fun h => ⟨h.1, h.2.1⟩, fun h => ⟨h.tag, h.inside, trivial⟩⟩
  · intro e _
    rfl
  · intro e _
    simp only [Output.nil_append, Element.ssl, Resource.commands_leaf]
    rw [← Dictionary.setAll_append]
    rfl

theorem compiles_keytab (kerberos : Address) :
    Compiles (keytab kerberos : Compilation δ Unit) (·.IsLeaf .keytab)
      fun e => .ofCommands (e.keytab.commands kerberos) := by
  have hc : Construct.keytab.Regular := by decide
  have hname (e : Element) : Construct.keytab.nameOf e = e.nameBy .principal :=
    Construct.nameOf_named ..
  apply Reads.congr
  · apply Reads.readNamed_bind hc
    intro t
    exact compiles_requireNoContent.bind fun _ => adds_push _
  · intro e _
    exact ⟨fun h => ⟨h.1, h.2.1⟩, fun h => ⟨h.tag, h.empty, trivial⟩⟩
  · intro e _
    rfl
  · intro e _
    rw [hname]
    rfl

theorem visitsBy_keytab (address : Address) : VisitsBy (fun _ element =>
    match element with
    | .keytab => keytab address
    | _ => (unexpectedElement : Compilation δ Unit))
    (fun _ => ()) (fun _ _ => True) (fun c => c.kind = .keytab ∧ c.IsLeaf .keytab)
    fun c => .ofCommands (c.keytab.commands address) := by
  intro past element
  cases element with
  | keytab =>
    exact (compiles_keytab _).readsAs (fun e he => by simp [he]) (fun _ _ _ => rfl)
      fun _ _ _ => rfl
  | _ => exact readsAs_unexpectedElement fun e he => by simp [he]

theorem compiles_kerberosIdentity :
    Compiles (kerberosIdentity grammar owner : Compilation δ Unit) (·.IsKerberosIdentity grammar)
      fun e => .ofCommands (e.kerberosIdentity.commands owner) := by
  apply Compiles.plain
  apply ((adds_push _).bind_reads (visitsBy_keytab _).reads).congr
  · intro e _
    exact ⟨fun h => h.2, fun h => ⟨trivial, h⟩⟩
  · intro e _
    rfl
  · intro e _
    rw [Output.concat_ofCommands, ← Resource.commandsOfAll_map]
    rfl

theorem compiles_serverIdentities :
    Compiles (serverIdentities grammar owner : Compilation δ Unit) (·.IsServerIdentities grammar)
      fun e => .ofCommands (commandsOfAll owner (e.children.map (·.serverIdentity))) := by
  have hsecret : Construct.secret.Regular := by decide
  simp only [Resource.commandsOfAll_map, ← Output.concat_ofCommands]
  apply Compiles.plain
  apply Compiles.apart
  intro seen element
  cases element with
  | secret =>
    exact (compiles_leaf hsecret _).once (by simp)
      (fun e he => by simp only [Element.IsServerIdentity, he])
      fun e he => by simp only [Element.serverIdentity, he, Resource.commands_leaf]
  | ssl =>
    exact (compiles_ssl grammar owner).once (by simp)
      (fun e he => by simp only [Element.IsServerIdentity, he])
      fun e he => by simp only [Element.serverIdentity, he]
  | kerberos =>
    exact (compiles_kerberosIdentity grammar owner).once (by simp)
      (fun e he => by simp only [Element.IsServerIdentity, he])
      fun e he => by simp only [Element.serverIdentity, he]
  | _ =>
    exact takes_unexpectedElement fun e he => by
      simp only [Element.IsServerIdentity, he, not_false_eq_true]

end ManagementScript.Compilation
