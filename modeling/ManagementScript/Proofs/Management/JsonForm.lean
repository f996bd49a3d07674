import Mathlib.Data.String.Basic
import ManagementScript.Proofs.Command.JsonForm
import ManagementScript.Proofs.Management.Naming
import ManagementScript.Proofs.Management.Typing

/-!
The commands of a management element lose nothing in JSON: what their signatures admit are texts,
booleans, numbers of the narrow kind and lists of texts, under names that no field of a command has.
-/

namespace ManagementScript

namespace Dictionary

variable {α : Type}

/-- The names ascend. -/
def Ascends (entries : List (String × α)) : Prop := entries.Pairwise (·.1 < ·.1)

theorem ascends_insertInto {entries : List (String × α)} (h : Ascends entries) (key : String)
    (value : α) : Ascends (insertInto key value entries) := by
  induction entries with
  | nil => exact List.pairwise_singleton ..
  | cons entry entries ih =>
    obtain ⟨hhead, htail⟩ := List.pairwise_cons.1 h
    rw [insertInto]
    split
    · next hlt =>
      refine .cons (List.forall_mem_cons.2 ⟨hlt, fun x hx => ?_⟩) h
      exact lt_trans hlt (hhead x hx)
    · next hge =>
      split
      · next he =>
        obtain rfl := eq_of_beq he
        exact .cons hhead htail
      · next hne =>
        refine .cons (fun x hx => ?_) (ih htail)
        cases mem_insertInto hx with
        | inl hx =>
          rw [hx]
          exact lt_of_le_of_ne (not_lt.1 hge) fun he => hne (beq_iff_eq.2 he.symm)
        | inr hx => exact hhead x hx

theorem ascends_ofList (pairs : List (String × α)) : Ascends (ofList pairs).entries := by
  have hset : ∀ (pairs : List (String × α)) (d : Dictionary α), Ascends d.entries →
      Ascends (d.setAll pairs).entries := by
    intro pairs
    induction pairs with
    | nil => exact fun _ h => h
    | cons pair pairs ih => exact fun d h => ih _ (ascends_insertInto h pair.1 pair.2)
  exact hset pairs empty .nil

theorem nodup_names_ofList (pairs : List (String × α)) :
    ((ofList pairs).entries.map Prod.fst).Nodup := by
  apply List.pairwise_map.2
  exact (ascends_ofList pairs).imp fun h => ne_of_lt h

end Dictionary

namespace AttributeDefinition

theorem hasLong_of_isItem (h : IsItem v) : v.hasLong = false := by
  cases v with
  | string | expression => rfl
  | boolean | int | long | list => cases h.1

theorem anyLong_eq_false {items : List Value} (h : ∀ v ∈ items, IsItem v) :
    Value.anyLong items = false := by
  induction items with
  | nil => rfl
  | cons v items ih =>
    obtain ⟨hv, hitems⟩ := List.forall_mem_cons.1 h
    rw [Value.anyLong, hasLong_of_isItem hv, ih hitems, Bool.or_self]

/-- Only a definition of numbers of the wide kind has them as values. -/
theorem Admits.hasLong {d : AttributeDefinition} (hd : d.kind ≠ .long) (h : d.Admits v) :
    v.hasLong = false := by
  cases h with
  | inl h =>
    simp only [AdmitsLiteral] at h
    split at h
    · rfl
    · rfl
    · rfl
    · next hk => exact absurd hk hd
    · rfl
    · exact anyLong_eq_false h.2.2
    · cases h
  | inr h =>
    obtain ⟨_, text, rfl, _⟩ := h
    rfl

end AttributeDefinition

/-- No resource has a parameter for numbers of the wide kind, or one named like a field. -/
theorem ResourceKind.parameters_free (kind : ResourceKind) :
    ∀ d ∈ kind.signature.parameters,
      d.kind ≠ .long ∧ d.parameter ≠ "operation" ∧ d.parameter ≠ "address" := by
  cases kind <;> decide

theorem Signature.Admits.faithful {kind : ResourceKind} {c : Command}
    (h : kind.signature.Admits c.parameters) : c.Faithful := by
  apply Command.Faithful.mk
  · intro x hx
    obtain ⟨d, hd, _, hv⟩ := h.declared x hx
    exact hv.hasLong (kind.parameters_free d hd).1
  · intro x hx
    obtain ⟨d, hd, hn, _⟩ := h.declared x hx
    rw [← hn]
    exact (kind.parameters_free d hd).2

theorem Element.IsManagement.faithful {e : Element} (h : e.IsManagement grammar) (base : Address) :
    ∀ c ∈ e.commands base, c.Faithful ∧ c.toJson.NamesDiffer := by
  intro c hc
  obtain ⟨_, _, _, _, hadmits⟩ := Resource.typed_of_mem_commandsOfAll _ (typed_resources h) hc
  obtain ⟨_, _, _, _, hmakes⟩ :=
    Resource.throughout_of_mem_commandsOfAll _ (throughout_resources h) hc
  obtain ⟨pairs, hpairs⟩ := hmakes.parameters
  have hnames := Dictionary.nodup_names_ofList pairs
  rw [← hpairs] at hnames
  exact ⟨hadmits.faithful, hadmits.faithful.namesDiffer hnames⟩

namespace Compilation

/-- The JSON form of what is added has no name twice in an object, and commands without numbers of the
wide kind and without parameters that are named like a field are told by their JSON form, be it
written on one line or indented. -/
theorem json_form_faithful :
    (∀ {grammar : GrammarNamespace} {base : Address} {native : Bool}
        {s s' : CompilationState Unit},
      management grammar .declining base native s = (.ok (), s') →
        ∃ commands, s'.script.toList = s.script.toList ++ commands ∧
          ∀ c ∈ commands, c.Faithful ∧ c.toJson.NamesDiffer) ∧
    ∀ s t : Script, (∀ c ∈ s.toList, c.Faithful) → (∀ c ∈ t.toList, c.Faithful) →
      (s.toJson.compact = t.toJson.compact → s = t) ∧
      (s.toJson.indented = t.toJson.indented → s = t) := by
  apply And.intro
  · intro grammar base native s s' h
    obtain ⟨e, d, _, he, _, _, hs⟩ := management_eq_ok_iff.1 h
    exact ⟨e.commands base, hs.script.toList, he.faithful base⟩
  · intro s t hs ht
    apply And.intro
    · intro h
      exact Script.toJson_inj hs ht (Json.compact_injective h)
    · intro h
      exact Script.toJson_inj hs ht (Json.indented_injective h)

theorem json_form_faithful_realm : ∃ s',
    management .domain42 .declining .root false (RealmSample.state .empty) = (.ok (), s') ∧
      (∀ c ∈ s'.script.toList, c.Faithful ∧ c.toJson.NamesDiffer) ∧
      s'.script = ⟨(RealmSample.management.commands .root).toArray⟩ := by
  obtain ⟨s', hm⟩ := RealmSample.compiles
  have hlist : s'.script.toList = RealmSample.management.commands .root := by
    obtain ⟨e, d, he, _, _, _, hs⟩ := management_eq_ok_iff.1 hm
    obtain ⟨d', h⟩ := RealmSample.spans .empty
    obtain ⟨rfl, _⟩ := he.unique h
    exact hs.script.toList
  obtain ⟨commands, hc, hf⟩ := json_form_faithful.1 hm
  have hc : s'.script.toList = commands := hc
  rw [← hc] at hf
  have hfaithful := fun c hc => (hf c hc).1
  have htext : s'.script.toJson.indented =
      (Script.mk (RealmSample.management.commands .root).toArray).toJson.indented := by
    simp only [Script.toJson, hlist]
    rfl
  refine ⟨s', hm, hf, (json_form_faithful.2 s'.script _ hfaithful ?_).2 htext⟩
  intro c hc
  exact hfaithful c (hlist ▸ hc)

end Compilation

end ManagementScript
