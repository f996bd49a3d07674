import Mathlib.Data.String.Basic
import ManagementScript.Proofs.Schema.Acceptance

/-!
The order of the attributes in a start tag. Different attributes become different parameters, so that
what is read of them does not depend on which of them comes first.
-/

namespace ManagementScript

/-- Steps that can be taken in either order are taken in any order. -/
theorem foldlM_perm {f : β → α → Except ε β} {R : α → α → Prop} (hsymm : ∀ a b, R a b → R b a)
    (hswap : ∀ a b, R a b → ∀ r s t, f r a = .ok s → f s b = .ok t →
      ∃ s', f r b = .ok s' ∧ f s' a = .ok t)
    {xs ys : List α} (hp : xs.Perm ys) (hx : xs.Pairwise R) (h : xs.foldlM f r = .ok r') :
    ys.foldlM f r = .ok r' := by
  induction hp generalizing r with
  | nil => exact h
  | cons a _ ih =>
    rw [List.foldlM_cons, bind_eq_ok_iff] at h ⊢
    obtain ⟨s, ha, hrest⟩ := h
    exact ⟨s, ha, ih (List.pairwise_cons.1 hx).2 hrest⟩
  | swap a b xs =>
    simp only [List.foldlM_cons, bind_eq_ok_iff] at h ⊢
    obtain ⟨s, hb, t, ha, hrest⟩ := h
    have hba : R b a := (List.pairwise_cons.1 hx).1 a (List.mem_cons_self ..)
    obtain ⟨s', ha', hb'⟩ := hswap b a hba r s t hb ha
    exact ⟨s', ha', t, hb', hrest⟩
  | trans hxy _ ihxy ihyz =>
    exact ihyz (hxy.pairwise hx fun h => hsymm _ _ h) (ihxy hx h)

namespace Dictionary

variable {α : Type}

theorem insertInto_comm (hlt : key < key') (v w : α) (entries : List (String × α)) :
    insertInto key' w (insertInto key v entries) = insertInto key v (insertInto key' w entries) := by
  have hnot : ¬key' < key := lt_asymm hlt
  have hne : key' ≠ key := ne_of_gt hlt
  induction entries with
  | nil => simp [insertInto, hlt, hnot, hne]
  | cons entry entries ih =>
    obtain ⟨other, old⟩ := entry
    rcases lt_trichotomy key other with hk | rfl | hk
    · simp only [insertInto, hk, hnot, hne, ↓reduceIte, beq_iff_eq]
      split
      · simp [insertInto, hlt]
      · split
        · simp [insertInto, hlt]
        · simp [insertInto, hk]
    · simp [insertInto, hnot, hne]
    · have hk' : other < key' := lt_trans hk hlt
      simp [insertInto, lt_asymm hk, lt_asymm hk', ne_of_gt hk, ne_of_gt hk', ih]

theorem set_comm (d : Dictionary α) (hne : key ≠ key') (v w : α) :
    (d.set key v).set key' w = (d.set key' w).set key v := by
  rcases lt_or_gt_of_ne hne with hlt | hlt
  · exact congrArg mk (insertInto_comm hlt v w d.entries)
  · exact congrArg mk (insertInto_comm hlt w v d.entries).symm

theorem setAll_set (d : Dictionary α) {pairs : List (String × α)} (h : key ∉ pairs.map Prod.fst)
    (v : α) : (d.setAll pairs).set key v = (d.set key v).setAll pairs := by
  induction pairs generalizing d with
  | nil => rfl
  | cons pair pairs ih =>
    rw [List.map_cons, List.mem_cons, not_or] at h
    exact (ih _ h.2).trans (congrArg (setAll · pairs) (set_comm d (Ne.symm h.1) ..))

theorem setAll_comm (d : Dictionary α) {xs ys : List (String × α)}
    (h : ∀ x ∈ xs, x.1 ∉ ys.map Prod.fst) : (d.setAll xs).setAll ys = (d.setAll ys).setAll xs := by
  induction xs generalizing d with
  | nil => rfl
  | cons x xs ih =>
    obtain ⟨hx, hxs⟩ := List.forall_mem_cons.1 h
    have hd := ih (d.set x.1 x.2) hxs
    rw [← setAll_set d hx] at hd
    exact hd

end Dictionary

theorem RequiredAttributes.see_comm (r : RequiredAttributes) (attr attr' : AttributeName) :
    (r.see attr).see attr' = (r.see attr').see attr := by
  simp only [see, List.filter_filter, Bool.and_comm]

namespace AttributeDefinition

/-- What is stored of an attribute, and whether it is, depends on its own parameter only. -/
theorem store_eq_ok_of_get? {d : AttributeDefinition}
    (h : d.store raw attr ps position = (.ok (), ps')) :
    ∃ pairs, (∀ x ∈ pairs, x.1 = d.parameter) ∧ ps' = ps.setAll pairs ∧
      ∀ qs : Parameters, qs.get? d.parameter = ps.get? d.parameter →
        d.store raw attr qs position = (.ok (), qs.setAll pairs) := by
  by_cases hk : d.kind = .list
  · simp only [store, hk] at h ⊢
    by_cases hne : splitItems raw = []
    · rw [hne] at h ⊢
      cases h
      exact ⟨[], List.forall_mem_nil _, rfl, fun _ _ => rfl⟩
    · obtain ⟨hlen, rfl⟩ := (storeItems_eq_ok_iff hne).1 h
      refine ⟨[(d.parameter, .list (ps.itemsOf d.parameter ++ splitItems raw))], by simp, rfl, ?_⟩
      intro qs hqs
      have hitems : qs.itemsOf d.parameter = ps.itemsOf d.parameter := by
        rw [Parameters.itemsOf, hqs, Parameters.itemsOf]
      exact (storeItems_eq_ok_iff hne).2 ⟨hitems ▸ hlen, by rw [hitems]; rfl⟩
  · simp only [store_of_ne_list hk] at h ⊢
    cases hp : d.parse raw attr position with
    | error e =>
      rw [hp] at h
      cases h
    | ok v =>
      rw [hp] at h
      cases h
      exact ⟨[(d.parameter, v)], by simp, rfl, fun _ _ => rfl⟩

/-- Attributes that become different parameters are stored in either order. -/
theorem store_swap {d d' : AttributeDefinition} (hne : d.parameter ≠ d'.parameter)
    (h : d.store raw attr ps position = (.ok (), ps₁))
    (h' : d'.store raw' attr' ps₁ position = (.ok (), ps₂)) :
    ∃ ps₁', d'.store raw' attr' ps position = (.ok (), ps₁') ∧
      d.store raw attr ps₁' position = (.ok (), ps₂) := by
  obtain ⟨xs, hxs, rfl, hd⟩ := store_eq_ok_of_get? h
  obtain ⟨ys, hys, rfl, hd'⟩ := store_eq_ok_of_get? h'
  have hapart {zs : List (String × Value)} {key other : String} (hz : ∀ x ∈ zs, x.1 = key)
      (hk : other ≠ key) : other ∉ zs.map Prod.fst := by
    intro hmem
    obtain ⟨x, hx, rfl⟩ := List.mem_map.1 hmem
    exact hk (hz x hx)
  have hx := ps.get?_setAll_of_notMem (hapart hxs hne.symm)
  have hy := ps.get?_setAll_of_notMem (hapart hys hne)
  refine ⟨ps.setAll ys, hd' ps hx.symm, ?_⟩
  rw [ps.setAll_comm fun x hmem => hxs x hmem ▸ hapart hys hne]
  exact hd _ hy

end AttributeDefinition

namespace Construct

variable {c : Construct} {position : Position}

/-- A reading with one more attribute that has become a parameter. -/
def ReadsParameter (c : Construct) (position : Position) (r : Reading) (attr : AttributeName)
    (raw : String) (r' : Reading) : Prop :=
  r'.identifier = r.identifier ∧ ∃ d, c.parameters.lookup attr = some d ∧
    d.store raw attr r.parameters position = (.ok (), r'.parameters)

/-- A reading with one more attribute that has become the name of the resource. -/
def ReadsIdentifier (c : Construct) (position : Position) (r : Reading) (attr : AttributeName)
    (raw : String) (r' : Reading) : Prop :=
  r'.parameters = r.parameters ∧ ∃ d v, c.identifier = some (attr, d) ∧
    d.parse raw attr position = .ok v ∧ r'.identifier = v.text?

theorem parameter_eq_ok {r r' : Reading} :
    readOne.parameter c element position attr raw r = .ok r' ↔
      r'.required = r.required ∧ c.ReadsParameter position r attr raw r' := by
  obtain ⟨identifier', parameters', required'⟩ := r'
  simp only [readOne.parameter, ReadsParameter]
  cases c.parameters.lookup attr with
  | none => simp
  | some d =>
    cases hs : d.store raw attr r.parameters position with
    | mk result ps =>
      cases result with
      | error e => simp [hs]
      | ok u => simp [hs, eq_comm, and_comm, and_left_comm]

theorem readOne_eq_ok {r r' : Reading} : c.readOne element position r attr raw = .ok r' ↔
    r'.required = r.required.see attr ∧ (c.ReadsIdentifier position r attr raw r' ∨
      c.identifies attr = false ∧ c.ReadsParameter position r attr raw r') := by
  cases hid : c.identifier with
  | none =>
    simp only [readOne, hid, parameter_eq_ok]
    simp [identifies, ReadsIdentifier, ReadsParameter, hid]
  | some x =>
    obtain ⟨identifier, d⟩ := x
    by_cases he : attr = identifier
    · subst he
      simp only [readOne, hid, beq_self_eq_true, ↓reduceIte, bind_eq_ok_iff]
      apply Iff.intro
      · intro h
        obtain ⟨v, hv, hr⟩ := h
        cases hr
        exact ⟨rfl, .inl ⟨rfl, d, v, hid, hv, rfl⟩⟩
      · intro h
        obtain ⟨hreq, ⟨hp, d', v, hid', hv, hname⟩ | ⟨hi, _⟩⟩ := h
        · obtain ⟨identifier', parameters', required'⟩ := r'
          cases hid.symm.trans hid'
          cases hreq
          cases hp
          cases hname
          exact ⟨v, hv, rfl⟩
        · simp [identifies, hid] at hi
    · simp only [readOne, hid, beq_iff_eq, he, ↓reduceIte, parameter_eq_ok]
      simp [identifies, ReadsIdentifier, ReadsParameter, hid, he, Ne.symm he]

/-- Two different attributes are read in either order. -/
theorem Regular.readOne_swap (hc : c.Regular) {r r₁ r₂ : Reading} (hne : attr ≠ attr')
    (h : c.readOne element position r attr raw = .ok r₁)
    (h' : c.readOne element position r₁ attr' raw' = .ok r₂) :
    ∃ r₁', c.readOne element position r attr' raw' = .ok r₁' ∧
      c.readOne element position r₁' attr raw = .ok r₂ := by
  simp only [readOne_eq_ok] at h h' ⊢
  obtain ⟨hreq, h⟩ := h
  obtain ⟨hreq', h'⟩ := h'
  have hsee : r₂.required = (r.required.see attr').see attr := by
    rw [hreq', hreq, RequiredAttributes.see_comm]
  rcases h with ⟨hp, d, v, hid, hv, hname⟩ | ⟨hi, hname, d, hd, hstore⟩
  · rcases h' with ⟨_, d', _, hid', _⟩ | ⟨hi', hname', d', hd', hstore'⟩
    · rw [hid, Option.some.injEq, Prod.mk.injEq] at hid'
      exact absurd hid'.1 hne
    · exact ⟨⟨r.identifier, r₂.parameters, r.required.see attr'⟩,
        ⟨rfl, .inr ⟨hi', rfl, d', hd', hp ▸ hstore'⟩⟩,
        hsee, .inl ⟨rfl, d, v, hid, hv, hname'.trans hname⟩⟩
  · rcases h' with ⟨hp', d', v', hid', hv', hname'⟩ | ⟨hi', hname', d', hd', hstore'⟩
    · exact ⟨⟨r₂.identifier, r.parameters, r.required.see attr'⟩,
        ⟨rfl, .inl ⟨rfl, d', v', hid', hv', hname'⟩⟩,
        hsee, .inr ⟨hi, rfl, d, hd, hp' ▸ hstore⟩⟩
    · obtain ⟨ps, hps, hps'⟩ :=
        AttributeDefinition.store_swap (hc.parameter_ne hd hd' hne) hstore hstore'
      exact ⟨⟨r.identifier, ps, r.required.see attr'⟩, ⟨rfl, .inr ⟨hi', rfl, d', hd', hps⟩⟩,
        hsee, .inr ⟨hi, hname'.trans hname, d, hd, hps'⟩⟩

/-- What is read of a start tag does not depend on the order of its attributes. -/
theorem Regular.read_perm (hc : c.Regular) (hp : attrs.Perm attrs')
    (hd : (attrs.map Prod.fst).Nodup) (h : c.read element position ps attrs = .ok r) :
    c.read element position ps attrs' = .ok r := by
  rw [read, bind_eq_ok_iff] at h ⊢
  obtain ⟨r₁, hfold, hrest⟩ := h
  refine ⟨r₁, foldlM_perm (R := fun a b => a.1 ≠ b.1) (fun _ _ h => h.symm) ?_ hp
    (List.pairwise_map.1 hd) hfold, hrest⟩
  intro a b hab r s t ha hb
  exact hc.readOne_swap hab ha hb

end Construct

end ManagementScript
