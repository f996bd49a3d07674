import ManagementScript.Command.Basic

/-!
How addresses are put together, and which of them lie above others. An address is above another one exactly
if the other one is found from it by a further way; both may be seen from one owner or from none.
-/

namespace ManagementScript

namespace Address

variable {a b c : Address}

theorem isStrictPrefixOf_iff :
    a.isStrictPrefixOf b = true ↔ ∃ s path, b.segments = a.segments ++ s :: path := by
  simp only [isStrictPrefixOf, Bool.and_eq_true, decide_eq_true_eq, beq_iff_eq]
  simp only [length]
  apply Iff.intro
  · intro h
    obtain ⟨hlt, htake⟩ := h
    have hsplit := List.take_append_drop a.segments.length b.segments
    cases hd : b.segments.drop a.segments.length with
    | nil =>
      rw [List.drop_eq_nil_iff] at hd
      omega
    | cons s path =>
      rw [htake, hd] at hsplit
      exact ⟨s, path, hsplit.symm⟩
  · intro h
    obtain ⟨s, path, h⟩ := h
    simp [h]

/-- What is not shorter is not above. -/
theorem isStrictPrefixOf_of_le (h : b.length ≤ a.length) : a.isStrictPrefixOf b = false := by
  simp [isStrictPrefixOf, Nat.not_lt.2 h]

theorem isRoot_eq_false_iff : a.isRoot = false ↔ ∃ s path, a.segments = s :: path := by
  rw [isRoot, List.isEmpty_eq_false_iff, List.ne_nil_iff_exists_cons]

/-- What is below an address is reached from it by a way of at least one step. -/
theorem isStrictPrefixOf_iff_prefixedBy :
    a.isStrictPrefixOf b = true ↔ ∃ way : Address, way.isRoot = false ∧ b = way.prefixedBy a := by
  simp only [isStrictPrefixOf_iff, isRoot_eq_false_iff]
  apply Iff.intro
  · rintro ⟨s, path, h⟩
    refine ⟨⟨s :: path⟩, ⟨s, path, rfl⟩, ?_⟩
    rw [prefixedBy, ← h]
  · rintro ⟨way, ⟨s, path, hway⟩, rfl⟩
    exact ⟨s, path, by rw [prefixedBy, hway]⟩

theorem isStrictPrefixOf_self (a : Address) : a.isStrictPrefixOf a = false :=
  isStrictPrefixOf_of_le (Nat.le_refl _)

/-- The way to `b` and the way from there to `c` are one way. -/
theorem isStrictPrefixOf_trans (hab : a.isStrictPrefixOf b = true) (hbc : b.isStrictPrefixOf c = true) :
    a.isStrictPrefixOf c = true := by
  obtain ⟨s, path, hb⟩ := isStrictPrefixOf_iff.1 hab
  obtain ⟨s', path', hc⟩ := isStrictPrefixOf_iff.1 hbc
  refine isStrictPrefixOf_iff.2 ⟨s, path ++ s' :: path', ?_⟩
  rw [hc, hb, List.append_assoc, List.cons_append]

/-- The steps of one owner before both addresses cancel each other. -/
theorem isStrictPrefixOf_prefixedBy (a b owner : Address) :
    (a.prefixedBy owner).isStrictPrefixOf (b.prefixedBy owner) = a.isStrictPrefixOf b := by
  rw [Bool.eq_iff_iff, isStrictPrefixOf_iff, isStrictPrefixOf_iff]
  simp only [prefixedBy, List.append_assoc, List.append_cancel_left_eq]

theorem length_resolve (pending : PendingCommand) (owner : Address) :
    (pending.resolve owner).address.length = owner.length + pending.relative.length :=
  length_prefixedBy _ _

/-- Addresses are put together like ways: it does not matter which parts are joined first, the root adds
nothing, one more step is an address of its own seen from its owner, and lengths add up. What is above an
address is told by the ways that lead down, it is never the address itself, and it stays above if both are
seen from one owner. -/
theorem addresses_compose (a b c owner : Address) (key value : String) (pending : PendingCommand) :
    (a.prefixedBy b).prefixedBy c = a.prefixedBy (b.prefixedBy c) ∧
    root.prefixedBy a = a ∧ a.prefixedBy root = a ∧
    a.append key value = (root.append key value).prefixedBy a ∧
    (pending.resolve owner).address.length = owner.length + pending.relative.length ∧
    (a.isStrictPrefixOf b = true ↔ ∃ way : Address, way.isRoot = false ∧ b = way.prefixedBy a) ∧
    a.isStrictPrefixOf a = false ∧
    (a.isStrictPrefixOf b = true → b.isStrictPrefixOf c = true → a.isStrictPrefixOf c = true) ∧
    (a.prefixedBy owner).isStrictPrefixOf (b.prefixedBy owner) = a.isStrictPrefixOf b := by
  refine ⟨(prefixedBy_assoc a b c).symm, root_prefixedBy a, prefixedBy_root a, append_eq_prefixedBy a key value,
    length_resolve pending owner, isStrictPrefixOf_iff_prefixedBy, isStrictPrefixOf_self a, ?_,
    isStrictPrefixOf_prefixedBy a b owner⟩
  exact isStrictPrefixOf_trans

end Address

end ManagementScript
