import ManagementScript.Proofs.Schema.Scalars
import ManagementScript.Proofs.Schema.Storing
import ManagementScript.Proofs.Text.Words

/-!
Lists grow up to their limit. The items of a text come behind those that the parameter has already;
the first item for which there is no room still comes in, and those behind it are lost.
-/

namespace ManagementScript

/-- The items that a parameter has: none if it is absent, and a value that is no list is the only one. -/
inductive Parameters.Holds (ps : Parameters) (name : String) : List Value → Prop where
  | absent (h : ps.get? name = none) : Holds ps name []
  | list (h : ps.get? name = some (.list items)) : Holds ps name items
  | single (h : ps.get? name = some value) (hv : ∀ items, value ≠ .list items) : Holds ps name [value]

theorem Parameters.Holds.itemsOf_eq {ps : Parameters} (h : ps.Holds name items) :
    ps.itemsOf name = items := by
  cases h with
  | absent h | list h => rw [itemsOf, h]
  | single h hv =>
    rw [itemsOf, h]
    split
    · next he => cases he
    · next he => exact absurd (Option.some.inj he) (hv _)
    · next he => rw [Option.some.inj he]

theorem Parameters.Holds.addToList {ps : Parameters} (h : ps.Holds name items) (value : Value) :
    (ps.addToList name value).2 = items.length + 1 ∧
      ps.Changes (ps.addToList name value).1 name (some (.list (items ++ [value]))) := by
  rw [Parameters.addToList, h.itemsOf_eq]
  exact ⟨List.length_append, ps.changes_set name _⟩

/-- An item stands for an expression if it holds one, and otherwise for itself. -/
inductive IsItem (text : String) : Value → Prop where
  | expression (h : HoldsExpression text) : IsItem text (.expression text)
  | string (h : ¬HoldsExpression text) : IsItem text (.string text)

namespace AttributeDefinition

variable {d : AttributeDefinition} {raw : String} {attr : AttributeName} {ps : Parameters}
  {position : Position}

theorem isItem_iff : IsItem text value ↔ value = item text := by
  rw [item]
  split
  · next h =>
    have hholds := isExpression_iff.1 h
    apply Iff.intro
    · rintro (_ | hnone)
      · rfl
      · exact absurd hholds hnone
    · rintro rfl
      exact .expression hholds
  · next h =>
    have hnone := mt isExpression_iff.2 h
    apply Iff.intro
    · rintro (hholds | _)
      · exact absurd hholds hnone
      · rfl
    · rintro rfl
      exact .string hnone

theorem forall₂_isItem_iff : List.Forall₂ IsItem texts new ↔ new = texts.map item := by
  have hitem : IsItem = fun text value => item text = value := by
    funext text value
    exact propext (isItem_iff.trans eq_comm)
  rw [eq_comm, ← List.forall₂_eq_eq_eq, List.forall₂_map_left_iff, hitem]

/-- The new items are put behind the old ones if there is room for them all. If there is not, they are
put there up to the first one too many, and the list is refused. -/
structure Appends (d : AttributeDefinition) (raw : String) (attr : AttributeName) (ps : Parameters)
    (position : Position) (old new : List Value) : Prop where
  succeeds_iff : (d.store raw attr ps position).1 = .ok () ↔ old.length + new.length ≤ 256
  success : (d.store raw attr ps position).1 = .ok () →
    ps.Changes (d.store raw attr ps position).2 d.parameter (some (.list (old ++ new)))
  failure : 256 < old.length + new.length →
    (d.store raw attr ps position).1 = .error (.limitExceeded s!"'{d.parameter}' list" 256) ∧
    ps.Changes (d.store raw attr ps position).2 d.parameter
      (some (.list (old ++ new.take (257 - old.length))))

theorem appends_splitItems (hk : d.kind = .list) (hold : ps.Holds d.parameter old)
    (hlength : old.length ≤ 256) (hne : splitItems raw ≠ []) :
    d.Appends raw attr ps position old (splitItems raw) := by
  have hitems := hold.itemsOf_eq
  have hstore : d.store raw attr ps position = storeItems d.parameter ps (splitItems raw) := by
    simp only [store, hk]
  by_cases hroom : old.length + (splitItems raw).length ≤ 256
  · have hok := (storeItems_eq_ok_iff (p := d.parameter) hne).2 ⟨hitems ▸ hroom, rfl⟩
    rw [hitems, ← hstore] at hok
    refine ⟨iff_of_true (by rw [hok]) hroom, fun _ => ?_, fun hfull => absurd hroom (by omega)⟩
    rw [hok]
    exact ps.changes_set d.parameter _
  · have hfull : 256 < old.length + (splitItems raw).length := by omega
    have hheld : (ps.itemsOf d.parameter).length ≤ 256 := hitems ▸ hlength
    have hover : 256 < (ps.itemsOf d.parameter).length + (splitItems raw).length := hitems ▸ hfull
    have herror := storeItems_of_full hheld hover
    rw [hitems, ← hstore] at herror
    refine ⟨iff_of_false (by simp [herror]) hroom, fun hok => ?_, fun _ => ?_⟩
    · rw [herror] at hok
      cases hok
    · rw [herror]
      exact ⟨rfl, ps.changes_set d.parameter _⟩

/-- A list is stored exactly if it finds room behind what the parameter has, and grows by one item at a
time. -/
theorem list_bounded_exactly (d : AttributeDefinition) (raw : String) (attr : AttributeName)
    (ps : Parameters) (position : Position) (hk : d.kind = .list) (hold : ps.Holds d.parameter old)
    (hlength : old.length ≤ 256) (htexts : Text.Separated raw.toList texts) (hne : texts ≠ []) :
    (∃ new, List.Forall₂ IsItem texts new ∧ d.Appends raw attr ps position old new) ∧
    ∀ (ps : Parameters) name value items, ps.Holds name items →
      (ps.addToList name value).2 = items.length + 1 ∧
        ps.Changes (ps.addToList name value).1 name (some (.list (items ++ [value]))) := by
  have hnew : splitItems raw = texts.map item := by
    rw [splitItems_eq, Text.words_eq_iff.2 htexts]
  have hsome : splitItems raw ≠ [] := by
    rw [hnew]
    exact mt List.map_eq_nil_iff.1 hne
  exact ⟨⟨_, forall₂_isItem_iff.2 hnew, appends_splitItems hk hold hlength hsome⟩,
    fun _ _ value _ h => h.addToList value⟩

/-- Of three items the third finds no room: the second is the one too many. -/
theorem list_bounded_exactly_full :
    ∃ ps, (list "p").store "a $\x7bb\x7d\tc" .unknown
        (.set .empty "p" (.list (List.replicate 255 (.boolean true)))) .unread =
      (.error (.limitExceeded "'p' list" 256), ps) ∧
      ps.get? "p" = some (.list (List.replicate 255 (.boolean true) ++
        [.string "a", .expression "$\x7bb\x7d"])) := by
  have hlength : (List.replicate 255 (Value.boolean true)).length = 255 := List.length_replicate
  generalize List.replicate 255 (Value.boolean true) = old at hlength
  have hold : Parameters.Holds (.set .empty "p" (.list old)) "p" old :=
    .list (Dictionary.get?_set_self ..)
  have htexts : Text.Separated "a $\x7bb\x7d\tc".toList ["a", "$\x7bb\x7d", "c"] :=
    Text.words_eq_iff.1 (by decide)
  obtain ⟨⟨new, hnew, h⟩, -⟩ := list_bounded_exactly (list "p") _ .unknown _ .unread rfl hold
    (by omega) htexts (by simp)
  have hitems : new = [.string "a", .expression "$\x7bb\x7d", .string "c"] := by
    rw [forall₂_isItem_iff.1 hnew]
    rfl
  subst hitems
  obtain ⟨herror, hchanges⟩ := h.failure (by simp [hlength])
  rw [hlength] at hchanges
  exact ⟨_, Prod.ext herror rfl, hchanges.named⟩

end AttributeDefinition

end ManagementScript
