import ManagementScript.Compilation.Realm
import ManagementScript.Proofs.Compilation.Authorization

/-!
The compilation of security realms. The command of a realm carries a parameter that comes from its
authorization; what stands in the realm is added behind that command.
-/

namespace ManagementScript.Compilation

open Resource (commandsOfAll)

variable {δ : Type} (grammar : GrammarNamespace) (owner : Address)

theorem takes_plugIn (modules : NameSet) :
    TakesNamed .module modules (plugIn owner modules : Compilation δ NameSet)
      (·.IsLeaf .plugInModule) fun e => .ofCommands (e.plugIn.commands owner) := by
  have hc : Construct.plugInModule.Regular := by decide
  have hname (e : Element) : Construct.plugInModule.nameOf e = e.nameBy .module :=
    Construct.nameOf_named ..
  apply Reads.congr
  · apply takes_reserved hc hname
    intro t
    exact compiles_requireNoContent.bind fun _ => (adds_push _).bind (adds_pure _)
  · intro e _
    exact ⟨fun h => ⟨h.1, h.2.1, h.2.2.1⟩, fun h => ⟨h.1, h.2.tag, h.2.empty, trivial, trivial⟩⟩
  · intro e _
    rfl
  · intro e _
    rfl

theorem compiles_plugIns : Compiles (plugIns grammar owner : Compilation δ Unit)
    (·.IsPlugIns grammar)
    fun e => .ofCommands (commandsOfAll owner (e.children.map (·.plugIn))) := by
  simp only [Resource.commandsOfAll_map, ← Output.concat_ofCommands]
  apply Compiles.plain
  apply Compiles.named (takes_plugIn owner) fun _ => rfl
  intro names element he
  split
  · exact absurd rfl he
  · rfl

/-! ### The content of a realm -/

/-- What the first authorization among the children of a realm gives it. -/
def mappingAmong (es : List Element) : Option Value :=
  (es.find? (·.kind == .authorization)).bind roleMapping

/-- The resources of a child of a realm are added as they are read. -/
def realmOutput (c : Element) : Output := .ofCommands (commandsOfAll owner c.realmPart)

theorem readsAs_realmPart {body : Compilation δ Unit} {past : List Element} (h : Compiles body B g)
    (hne : element ≠ .authorization)
    (hA : ∀ e, e.kind = element → (Element.IsRealmPart grammar e ↔ B e))
    (hf : ∀ e, e.kind = element → realmOutput owner e = g e) :
    ReadsAs element (do
        let seen ← once (.ofList (past.map (·.kind))) element
        body
        return (seen, mappingAmong past))
      (fun e => (∀ c ∈ past, c.Apart [] e) ∧ e.IsRealmPart grammar)
      (fun e => (.ofList ((past ++ [e]).map (·.kind)), mappingAmong (past ++ [e])))
      (realmOutput owner) := by
  apply Reads.readsAs
  · apply (adds_once _ element).bind_reads
    exact h.bind fun _ => adds_pure _
  · intro e he
    subst he
    rw [hA e rfl, ← ElementSet.free_ofList_iff, and_true]
    rfl
  · intro e he _
    subst he
    rw [List.map_append, List.map_cons, List.map_nil, ElementSet.ofList_concat]
    simp [mappingAmong, hne]
  · intro e he _
    rw [hf e he, Output.nil_append, Output.append_nil]

theorem mappingAmong_concat {past : List Element} {e : Element} (he : e.kind = .authorization)
    (h : ∀ c ∈ past, c.Apart [] e) : mappingAmong (past ++ [e]) = roleMapping e := by
  have hpast : past.find? (·.kind == .authorization) = none := by
    rw [List.find?_eq_none]
    intro c hc hk
    exact (h c hc).1 ((eq_of_beq hk).trans he.symm)
  simp [mappingAmong, hpast, he]

theorem reads_realmContent : Reads (realmContent grammar owner : Compilation δ (Option Value))
    (·.HoldsApart grammar [] (Element.IsRealmPart grammar)) (fun e => mappingAmong e.children)
    fun e => .ofCommands (commandsOfAll owner (e.children.flatMap (·.realmPart))) := by
  apply Reads.congr
  · apply Reads.bind
    · apply @VisitsBy.reads _ _ grammar _
        (fun past => (ElementSet.ofList (past.map (·.kind)), mappingAmong past)) (Element.Apart [])
        (Element.IsRealmPart grammar) (realmOutput owner)
      intro past element
      cases element with
      | plugIns =>
        exact readsAs_realmPart grammar owner (compiles_plugIns grammar owner) (by decide)
          (fun e he => by simp only [Element.IsRealmPart, he])
          fun e he => by simp only [realmOutput, Element.realmPart, he]
      | serverIdentities =>
        exact readsAs_realmPart grammar owner (compiles_serverIdentities grammar owner) (by decide)
          (fun e he => by simp only [Element.IsRealmPart, he])
          fun e he => by simp only [realmOutput, Element.realmPart, he]
      | authentication =>
        exact readsAs_realmPart grammar owner (compiles_authentication grammar owner) (by decide)
          (fun e he => by simp only [Element.IsRealmPart, he])
          fun e he => by simp only [realmOutput, Element.realmPart, he]
      | authorization =>
        apply Reads.readsAs
        · apply (adds_once _ .authorization).bind_reads
          exact (reads_authorization grammar owner).bind fun _ => adds_pure _
        · intro e he
          simp only [Element.IsRealmPart, he, ← ElementSet.free_ofList_iff, and_true]
          rfl
        · intro e he h
          simp only [mappingAmong_concat he h.1, List.map_append, List.map_cons, List.map_nil,
            ElementSet.ofList_concat, he]
        · intro e he _
          simp only [realmOutput, Element.realmPart, he, Output.nil_append, Output.append_nil]
      | _ =>
        exact readsAs_unexpectedElement fun e he => by
          simp only [Element.IsRealmPart, he, and_false, not_false_eq_true]
    · intro e
      exact adds_pure _
  · intro e _
    exact and_iff_left trivial
  · intro e _
    rfl
  · intro e _
    rw [Resource.commandsOfAll_flatMap, ← Output.concat_ofCommands, Output.append_nil]
    rfl

/-! ### Realms -/

theorem flatMap_realmParameter {es : List Element} (h : es.Pairwise (Element.Apart [])) :
    es.flatMap (·.realmParameter) =
      ((es.find? (·.kind == .authorization)).map Construct.authorization.entries).getD [] := by
  induction es with
  | nil => rfl
  | cons c es ih =>
    obtain ⟨hc, h⟩ := List.pairwise_cons.1 h
    rw [List.flatMap_cons, ih h]
    by_cases hk : c.kind = .authorization
    · have hnone : es.find? (·.kind == .authorization) = none := by
        rw [List.find?_eq_none]
        intro d hd hkd
        exact (hc d hd).1 (hk.trans (eq_of_beq hkd).symm)
      simp [Element.realmParameter, hk, hnone]
    · have hnil : c.realmParameter = [] := by
        rw [Element.realmParameter]
        split
        · next hk' => exact absurd hk' hk
        · rfl
      rw [hnil, List.nil_append, List.find?_cons_of_neg (by simpa using hk)]

/-- The parameters of a realm are those that the one authorization inside becomes. -/
theorem realmParameters_eq {e : Element} (h : e.children.Pairwise (Element.Apart [])) :
    (mappingAmong e.children).elim .empty
      (Dictionary.empty.set AttributeName.mapGroupsToRoles.localName) =
        Dictionary.ofList (e.children.flatMap (·.realmParameter)) := by
  rw [flatMap_realmParameter h, mappingAmong]
  cases e.children.find? (·.kind == .authorization) with
  | none => rfl
  | some c =>
    have hkeys : ∀ x ∈ Construct.authorization.entries c,
        x.1 = AttributeName.mapGroupsToRoles.localName := by
      intro x hx
      obtain ⟨d, hd, hp⟩ := Construct.exists_of_mem_entries hx
      rw [← hp, List.mem_singleton.1 hd]
      rfl
    exact (Dictionary.setAll_of_key hkeys).symm

/-- The report of a realm. -/
def realmReport (e : Element) : LogEvent :=
  (LogEvent.success .realmCompiled "Security realm translated").withFacts
    [("realm", e.nameBy .name),
      ("operations", toString (e.securityRealm.commands owner).length)]

theorem takes_securityRealm (names : NameSet) :
    TakesNamed .name names (securityRealm grammar owner names : Compilation δ NameSet)
      (·.IsSecurityRealm grammar)
      fun e => ⟨e.securityRealm.commands owner, [realmReport owner e]⟩ := by
  have hc : Construct.securityRealm.Regular := by decide
  have hname (e : Element) : Construct.securityRealm.nameOf e = e.nameBy .name :=
    Construct.nameOf_named ..
  apply Reads.congr
  · apply takes_reserved hc hname
    intro t
    apply (reads_realmContent grammar _).isolated.bind
    intro e
    apply Adds.push_extend_bind
    exact (adds_succeed _ _ _).bind (adds_pure _)
  · intro e hfits
    -- The script of the content has room where the one that it is added to has.
    have hcontent : (Output.ofCommands (commandsOfAll (owner.append "security-realm" (e.nameBy .name))
        (e.children.flatMap (·.realmPart)))).Fits := by
      simp only [Output.Fits, Output.commands_append, Output.ofCommands, Script.toList_ofList,
        List.length_append, List.length_cons, Output.nil] at hfits ⊢
      omega
    exact ⟨fun h => ⟨h.1, h.2.1, h.2.2.1.1⟩,
      fun h => ⟨h.1, h.2.tag, ⟨h.2.inside, hcontent⟩, trivial, trivial⟩⟩
  · intro e _
    rfl
  · intro e h
    have hps := realmParameters_eq h.2.inside.compatible
    apply Output.ext
    · cases hm : mappingAmong e.children with
      | none =>
        rw [hm] at hps
        simp [Output.ofCommands, Element.securityRealm, Resource.commands, ← hps]
      | some value =>
        rw [hm] at hps
        simp [Output.ofCommands, Element.securityRealm, Resource.commands, ← hps]
    · simp [Output.ofCommands, realmReport, Element.securityRealm, Resource.commands, Script.size_eq]

theorem compiles_securityRealms : Compiles (securityRealms grammar owner : Compilation δ Unit)
    (·.IsSecurityRealms grammar)
    fun e => ⟨commandsOfAll owner (e.children.map (·.securityRealm)),
      e.children.map (realmReport owner)⟩ := by
  simp only [Resource.commandsOfAll_map, ← Output.concat_reports]
  apply Compiles.plain
  apply Compiles.named (takes_securityRealm grammar owner) fun _ => rfl
  intro names element he
  split
  · exact absurd rfl he
  · rfl

end ManagementScript.Compilation
