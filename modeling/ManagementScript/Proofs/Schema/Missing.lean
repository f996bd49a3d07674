import ManagementScript.Proofs.Schema.Acceptance

/-!
Required attributes that are missing. Where all attributes that are there are accepted, the reading of a
start tag fails with every required one that is not there, in the order they are declared in.
-/

namespace ManagementScript

namespace Construct

/-- The required attributes that are not among the given ones, in the order they are declared in. -/
def missing (c : Construct) (attrs : List (AttributeName × String)) : List AttributeName :=
  c.required.filter fun attr => attr ∉ attrs.map Prod.fst

theorem missing_eq_nil_iff {c : Construct} :
    c.missing attrs = [] ↔ ∀ attr ∈ c.required, attr ∈ attrs.map Prod.fst := by
  rw [missing, List.filter_eq_nil_iff]
  simp only [decide_eq_true_eq, Decidable.not_not]

/-- All attributes that are there are accepted, though required ones may be missing. -/
structure AcceptsPresent (c : Construct) (e : Element) : Prop where
  listed : ∀ a ∈ e.named, ∃ d, c.definition? a.1 = some d ∧ d.Accepts a.2
  unlabelled : ∀ a ∈ e.attributes, a.namespaceUri = none

theorem AcceptsPresent.accepts {c : Construct} {e : Element} (h : c.AcceptsPresent e)
    (hm : c.missing e.named = []) : c.Accepts e :=
  ⟨⟨h.listed, missing_eq_nil_iff.1 hm⟩, h.unlabelled⟩

/-- Accepted attributes that are not all of the required ones are refused for those that are missing. -/
theorem Regular.read_missing {c : Construct} {position : Position} (hc : c.Regular)
    (hd : (attrs.map Prod.fst).Nodup) (hf : c.Fresh ps)
    (h : ∀ a ∈ attrs, ∃ d, c.definition? a.1 = some d ∧ d.Accepts a.2) (hm : c.missing attrs ≠ []) :
    c.read element position ps attrs =
      .error (.missingAttributes element ((c.missing attrs).map (·.localName)) position) := by
  have hfor : c.FreshFor (Reading.mk none ps ⟨c.required⟩).parameters attrs :=
    fun a _ d hl => hf _ (mem_of_lookup hl)
  have hfinish : (attrs.foldl c.step ⟨none, ps, ⟨c.required⟩⟩).required.finish element position =
      .error (.missingAttributes element ((c.missing attrs).map (·.localName)) position) := by
    rw [foldl_step_required, RequiredAttributes.finish, RequiredAttributes.isSatisfied, if_neg]
    · rfl
    · rwa [List.isEmpty_iff]
  rw [read, (hc.foldlM_eq_ok_iff hd hfor).2 ⟨h, rfl⟩]
  exact congrArg (· >>= fun _ => _) hfinish

end Construct

end ManagementScript
