import Mathlib.Data.List.Induction
import ManagementScript.Schema.Definition

/-!
What the text of an attribute becomes under its definition. A text that is accepted becomes one
parameter, or none where it is a list without items.
-/

namespace ManagementScript

namespace Dictionary

variable {α : Type}

theorem insertInto_insertInto (key : String) (v w : α) (entries : List (String × α)) :
    insertInto key w (insertInto key v entries) = insertInto key w entries := by
  induction entries with
  | nil => simp [insertInto]
  | cons entry entries ih =>
    obtain ⟨other, old⟩ := entry
    by_cases hlt : key < other
    · simp [insertInto, hlt]
    · by_cases heq : key == other
      · simp [insertInto, hlt, heq]
      · simp [insertInto, hlt, heq, ih]

theorem set_set (d : Dictionary α) (key : String) (v w : α) :
    (d.set key v).set key w = d.set key w := by
  simp [set, insertInto_insertInto]

/-- Puts several values into a dictionary, one after the other. -/
def setAll (d : Dictionary α) (pairs : List (String × α)) : Dictionary α :=
  pairs.foldl (fun d (key, value) => d.set key value) d

@[simp] theorem setAll_nil (d : Dictionary α) : d.setAll [] = d := rfl

theorem setAll_append (d : Dictionary α) (xs ys : List (String × α)) :
    d.setAll (xs ++ ys) = (d.setAll xs).setAll ys :=
  List.foldl_append

theorem get?_setAll_of_notMem (d : Dictionary α) {pairs : List (String × α)}
    (h : key ∉ pairs.map Prod.fst) : (d.setAll pairs).get? key = d.get? key := by
  induction pairs generalizing d with
  | nil => rfl
  | cons pair pairs ih =>
    rw [List.map_cons, List.mem_cons, not_or] at h
    exact (ih _ h.2).trans (d.get?_set_of_ne _ h.1)

/-- Values under one key leave the last of them. -/
theorem setAll_of_key {pairs : List (String × α)} (h : ∀ x ∈ pairs, x.1 = key) :
    (empty : Dictionary α).setAll pairs =
      ((empty.setAll pairs).get? key).elim empty (empty.set key) := by
  induction pairs using List.reverseRecOn with
  | nil => rfl
  | append_singleton pairs pair ih =>
    have hlast : (empty : Dictionary α).setAll (pairs ++ [pair]) =
        (empty.setAll pairs).set key pair.2 := by
      rw [setAll_append, ← h pair (by simp)]
      rfl
    rw [hlast, get?_set_self, ih fun x hx => h x (List.mem_append_left _ hx)]
    cases (empty.setAll pairs).get? key with
    | none => rfl
    | some value => exact set_set ..

end Dictionary

namespace AttributeDefinition

/-- Whether a text is accepted depends neither on the attribute nor on its place. -/
theorem parse_eq_ok (d : AttributeDefinition) (raw : String) (attr attr' : AttributeName)
    (p p' : Position) (h : d.parse raw attr p = .ok v) : d.parse raw attr' p' = .ok v := by
  simp only [parse] at h ⊢
  split at h
  · next he =>
    rw [if_pos he]
    exact h
  next he =>
  rw [if_neg he]
  split at h
  · exact h
  · exact h
  · split at h
    · next ht =>
      rw [if_pos ht]
      exact h
    next ht =>
    split at h
    · next hf =>
      rw [if_neg ht, if_pos hf]
      exact h
    · cases h
  · split at h
    · split at h
      · cases h
      · exact h
    · cases h
  · split at h
    · split at h
      · cases h
      · exact h
    · cases h
  · split at h
    · next ha =>
      rw [if_pos ha]
      exact h
    · cases h

/-- The value that a text is read as, if it is accepted. -/
def value? (d : AttributeDefinition) (raw : String) : Option Value :=
  (d.parse raw .unknown .unread).toOption

theorem parse_eq_ok_iff {d : AttributeDefinition} {p : Position} :
    d.parse raw attr p = .ok v ↔ d.value? raw = some v := by
  apply Iff.intro
  · intro h
    rw [value?, d.parse_eq_ok raw _ _ _ _ h]
    rfl
  · intro h
    simp only [value?, Except.toOption] at h
    split at h
    · next hp =>
      cases h
      exact d.parse_eq_ok raw _ _ _ _ hp
    · cases h

/-- The definition takes the text, a list only with no more items than there may be. -/
def Accepts (d : AttributeDefinition) (raw : String) : Prop :=
  match d.kind with
  | .list => (splitItems raw).length ≤ Limits.listItems
  | _ => (d.value? raw).isSome

/-- The parameters that a text becomes. -/
def entries (d : AttributeDefinition) (raw : String) : List (String × Value) :=
  match d.kind with
  | .list =>
    match splitItems raw with
    | [] => []
    | items => [(d.parameter, .list items)]
  | _ => ((d.value? raw).map (d.parameter, ·)).toList

theorem fst_of_mem_entries {d : AttributeDefinition} (h : x ∈ d.entries raw) :
    x.1 = d.parameter := by
  simp only [entries] at h
  split at h
  · split at h
    · cases h
    · rw [List.mem_singleton.1 h]
  · obtain ⟨v, _, rfl⟩ := Option.map_eq_some_iff.1 (Option.mem_toList.1 h)
    rfl

/-- A list grows item by item, up to the limit. -/
theorem storeItems_eq_ok_iff {items : List Value} (hne : items ≠ []) :
    storeItems p ps items = (.ok (), ps') ↔
      (ps.itemsOf p).length + items.length ≤ Limits.listItems ∧
        ps' = ps.set p (.list (ps.itemsOf p ++ items)) := by
  induction items generalizing ps with
  | nil => exact absurd rfl hne
  | cons item items ih =>
    have hitems := ps.itemsOf_addToList p item
    simp only [storeItems, Parameters.addToList, List.length_append, List.length_cons,
      List.length_nil] at hitems ⊢
    split
    · next hlt =>
      apply Iff.intro
      · intro h
        cases h
      · intro h
        omega
    next hle =>
    cases items with
    | nil =>
      simp only [storeItems, Prod.mk.injEq, true_and, List.length_nil, Nat.zero_add]
      apply Iff.intro
      · intro h
        subst h
        exact ⟨Nat.not_lt.1 hle, rfl⟩
      · exact fun h => h.2.symm
    | cons next items =>
      rw [ih (by simp), hitems, Dictionary.set_set]
      simp only [List.length_append, List.length_cons, List.length_nil, List.append_assoc,
        List.cons_append, List.nil_append]
      rw [show (ps.itemsOf p).length + (0 + 1) + (items.length + 1) =
        (ps.itemsOf p).length + (items.length + 1 + 1) by omega]

theorem store_of_ne_list {d : AttributeDefinition} {position : Position} (h : d.kind ≠ .list) :
    d.store raw attr ps position =
      match d.parse raw attr position with
      | .ok value => (.ok (), ps.set d.parameter value)
      | .error e => (.error e, ps) := by
  rw [store]
  split
  · next hk => exact absurd hk h
  · rfl

/-- An attribute is stored where its definition accepts the text; a list has to be new. -/
theorem store_eq_ok_iff {d : AttributeDefinition} {position : Position}
    (hnew : d.kind = .list → ps.get? d.parameter = none) :
    d.store raw attr ps position = (.ok (), ps') ↔
      d.Accepts raw ∧ ps' = ps.setAll (d.entries raw) := by
  by_cases hk : d.kind = .list
  · have hitems : ps.itemsOf d.parameter = [] := by rw [Parameters.itemsOf, hnew hk]
    simp only [store, Accepts, entries, hk]
    cases hs : splitItems raw with
    | nil => simp [storeItems, eq_comm]
    | cons item items =>
      rw [storeItems_eq_ok_iff (by simp), hitems]
      simp [Dictionary.setAll]
  · have haccepts : d.Accepts raw ↔ (d.value? raw).isSome := by
      rw [Accepts]
      split
      · next h => exact absurd h hk
      · rfl
    have hentries : d.entries raw = ((d.value? raw).map (d.parameter, ·)).toList := by
      rw [entries]
      split
      · next h => exact absurd h hk
      · rfl
    rw [store_of_ne_list hk, haccepts, hentries]
    cases hp : d.parse raw attr position with
    | ok v => simp [parse_eq_ok_iff.1 hp, Dictionary.setAll, eq_comm]
    | error e =>
      have hv : d.value? raw = none := by
        cases hv : d.value? raw with
        | none => rfl
        | some v =>
          rw [parse_eq_ok_iff.2 hv] at hp
          cases hp
      simp [hv]

/-- A definition whose values are texts, as those of names are. -/
def isText (d : AttributeDefinition) : Bool :=
  match d.kind with
  | .string | .enumerated _ => true
  | _ => false

theorem text?_of_value? {d : AttributeDefinition} (hd : d.isText) (h : d.value? raw = some v) :
    v.text? = some raw := by
  have h := (@parse_eq_ok_iff _ .unknown _ _ .unread).2 h
  simp only [isText] at hd
  simp only [parse] at h
  split at h
  · cases h
    rfl
  split at hd
  · next hk =>
    simp only [hk] at h
    cases h
    rfl
  · next hk =>
    simp only [hk] at h
    split at h
    · cases h
      rfl
    · cases h
  · cases hd

theorem accepts_iff_of_isText {d : AttributeDefinition} (hd : d.isText) :
    d.Accepts raw ↔ (d.value? raw).isSome := by
  simp only [isText] at hd
  split at hd
  · next hk => simp only [Accepts, hk]
  · next hk => simp only [Accepts, hk]
  · cases hd

end AttributeDefinition

end ManagementScript
