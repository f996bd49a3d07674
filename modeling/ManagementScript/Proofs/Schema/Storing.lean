import ManagementScript.Proofs.Schema.Values

/-!
Reading the text of an attribute and storing it. A single value is stored as it is read, and with it the
two fail together. A list is stored item by item: as long as there is room it becomes the list of its
items, whereas a text that is an expression as a whole is read as one value.
-/

namespace ManagementScript

/-- One parameter has become `value`, and all others are what they were. -/
structure Parameters.Changes (ps ps' : Parameters) (name : String) (value : Option Value) : Prop where
  named : ps'.get? name = value
  others : ∀ other, other ≠ name → ps'.get? other = ps.get? other

theorem Parameters.changes_set (ps : Parameters) (name : String) (value : Value) :
    ps.Changes (ps.set name value) name (some value) :=
  ⟨ps.get?_set_self name value, fun _ h => ps.get?_set_of_ne value h⟩

namespace AttributeDefinition

variable {d : AttributeDefinition} {raw : String} {attr : AttributeName} {ps : Parameters}
  {position : Position}

/-! ### Reading -/

/-- Without expressions no text is read as one. -/
theorem parse_ne_expression (h : d.acceptsExpression = false) (text : String) :
    d.parse raw attr position ≠ .ok (.expression text) := by
  intro hp
  simp only [parse, h, Bool.false_and, Bool.false_eq_true, if_false] at hp
  split at hp
  · cases hp
  · cases hp
  · split at hp
    · cases hp
    · split at hp <;> cases hp
  · split at hp
    · split at hp <;> cases hp
    · cases hp
  · split at hp
    · split at hp <;> cases hp
    · cases hp
  · split at hp <;> cases hp

theorem parse_of_list (h : d.kind = .list) : d.parse raw attr position =
    .ok (if d.acceptsExpression && isExpression raw then .expression raw else .list (splitItems raw)) := by
  simp only [parse, h]
  split <;> rfl

/-- An item of a list: it is an expression by itself, whatever surrounds it. -/
def item (text : String) : Value := if isExpression text then .expression text else .string text

theorem text?_item (text : String) : (item text).text? = some text := by
  rw [item]
  split <;> rfl

theorem splitItems_eq (raw : String) : splitItems raw = (Text.words raw).map item := rfl

/-! ### Storing -/

/-- A list that grows beyond the limit keeps one item too many. -/
theorem storeItems_of_full {items : List Value} (hold : (ps.itemsOf p).length ≤ Limits.listItems)
    (hfull : Limits.listItems < (ps.itemsOf p).length + items.length) :
    storeItems p ps items = (.error (.limitExceeded s!"'{p}' list" Limits.listItems),
      ps.set p (.list (ps.itemsOf p ++ items.take (Limits.listItems + 1 - (ps.itemsOf p).length)))) := by
  induction items generalizing ps with
  | nil =>
    rw [List.length_nil] at hfull
    omega
  | cons item items ih =>
    have hitems := ps.itemsOf_addToList p item
    rw [List.length_cons] at hfull
    rw [storeItems]
    simp only [Parameters.addToList, List.length_append, List.length_singleton] at hitems ⊢
    split
    · next hlast =>
      rw [show Limits.listItems + 1 - (ps.itemsOf p).length = 1 by omega]
      rfl
    · next hroom =>
      have hlength := congrArg List.length hitems
      rw [List.length_append, List.length_singleton] at hlength
      rw [ih (by omega) (by omega), hitems, Dictionary.set_set, List.append_assoc, List.length_append,
        List.length_singleton,
        show Limits.listItems + 1 - (ps.itemsOf p).length =
          (Limits.listItems + 1 - ((ps.itemsOf p).length + 1)) + 1 by omega]
      rfl

/-- A single value is stored as it is read, and reading and storing fail together. -/
structure StoresAsRead (d : AttributeDefinition) (raw : String) (attr : AttributeName) (ps : Parameters)
    (position : Position) : Prop where
  fails_iff : ∀ e, (d.store raw attr ps position).1 = .error e ↔ d.parse raw attr position = .error e
  failure : ∀ e, (d.store raw attr ps position).1 = .error e → (d.store raw attr ps position).2 = ps
  success : ∀ v, d.parse raw attr position = .ok v →
    ps.Changes (d.store raw attr ps position).2 d.parameter (some v)

/-- A text is stored as the list of its items if there is room for them, and a text without items is not
stored at all. The list is what the text is read as, unless it is read as an expression. -/
structure StoresItems (d : AttributeDefinition) (raw : String) (attr : AttributeName) (ps : Parameters)
    (position : Position) (items : List Value) : Prop where
  texts : items.map (·.text?) = (Text.words raw).map some
  classified : d.acceptsExpression = true → items = (Text.words raw).map item
  read : d.parse raw attr position =
    .ok (if d.acceptsExpression && isExpression raw then .expression raw else .list items)
  fails_iff : ∀ e, (d.store raw attr ps position).1 = .error e ↔
    Limits.listItems < items.length ∧ e = .limitExceeded s!"'{d.parameter}' list" Limits.listItems
  success : (d.store raw attr ps position).1 = .ok () →
    ps.Changes (d.store raw attr ps position).2 d.parameter (if items = [] then none else some (.list items))

theorem storesAsRead (h : d.kind ≠ .list) : d.StoresAsRead raw attr ps position := by
  cases hparse : d.parse raw attr position with
  | error e =>
    have hstore : d.store raw attr ps position = (.error e, ps) := by rw [store_of_ne_list h, hparse]
    refine ⟨fun e' => ?_, fun _ _ => by rw [hstore], fun v hv => ?_⟩
    · rw [hstore, hparse]
      simp only [Except.error.injEq]
    · cases hparse.symm.trans hv
  | ok v =>
    have hstore : d.store raw attr ps position = (.ok (), ps.set d.parameter v) := by
      rw [store_of_ne_list h, hparse]
    refine ⟨fun e' => ?_, fun _ he => ?_, fun v' hv => ?_⟩
    · rw [hstore, hparse]
      simp only [reduceCtorEq]
    · rw [hstore] at he
      cases he
    · cases hparse.symm.trans hv
      rw [hstore]
      exact ps.changes_set d.parameter v

/-- The items of a new list find room, or they are refused. -/
theorem storeItems_new (hnew : ps.get? name = none) (items : List Value) :
    (items.length ≤ Limits.listItems ∧ ∃ ps', storeItems name ps items = (.ok (), ps') ∧
      ps.Changes ps' name (if items = [] then none else some (.list items))) ∨
    (Limits.listItems < items.length ∧ ∃ ps', storeItems name ps items =
      (.error (.limitExceeded s!"'{name}' list" Limits.listItems), ps')) := by
  have hold : ps.itemsOf name = [] := by rw [Parameters.itemsOf, hnew]
  have hcount : (ps.itemsOf name).length = 0 := congrArg List.length hold
  by_cases hroom : items.length ≤ Limits.listItems
  · refine .inl ⟨hroom, ?_⟩
    by_cases hempty : items = []
    · rw [if_pos hempty, hempty]
      exact ⟨ps, rfl, hnew, fun _ _ => rfl⟩
    · rw [if_neg hempty]
      refine ⟨_, (storeItems_eq_ok_iff hempty).2 ⟨by omega, rfl⟩, ?_⟩
      rw [hold, List.nil_append]
      exact ps.changes_set name (.list items)
  · exact .inr ⟨by omega, _, storeItems_of_full (by omega) (by omega)⟩

theorem storesItems (h : d.kind = .list) (hnew : ps.get? d.parameter = none) :
    d.StoresItems raw attr ps position (splitItems raw) := by
  have hstore : d.store raw attr ps position = storeItems d.parameter ps (splitItems raw) := by
    simp only [store, h]
  have htexts : (splitItems raw).map (·.text?) = (Text.words raw).map some := by
    rw [splitItems_eq, List.map_map]
    exact List.map_congr_left fun text _ => text?_item text
  refine ⟨htexts, fun _ => rfl, parse_of_list h, fun e => ?_, fun hok => ?_⟩
  · rw [hstore]
    rcases storeItems_new hnew (splitItems raw) with ⟨hroom, ps', hrun, -⟩ | ⟨hfull, ps', hrun⟩
    · rw [hrun]
      exact iff_of_false (fun he => by cases he) fun hfull => by omega
    · rw [hrun]
      simp only [Except.error.injEq, hfull, true_and, eq_comm]
  · rw [hstore] at hok ⊢
    rcases storeItems_new hnew (splitItems raw) with ⟨-, ps', hrun, hchanges⟩ | ⟨-, ps', hrun⟩
    · rw [hrun]
      exact hchanges
    · rw [hrun] at hok
      cases hok

/-- Storing agrees with reading. -/
theorem store_agrees_with_parse (d : AttributeDefinition) (raw : String) (attr : AttributeName)
    (ps : Parameters) (position : Position) (hnew : ps.get? d.parameter = none) :
    (d.kind ≠ .list → d.StoresAsRead raw attr ps position) ∧
    (d.kind = .list → ∃ items, d.StoresItems raw attr ps position items) ∧
    (d.acceptsExpression = false → ∀ text, d.parse raw attr position ≠ .ok (.expression text)) :=
  ⟨storesAsRead, fun h => ⟨_, storesItems h hnew⟩, parse_ne_expression⟩

theorem store_agrees_with_parse_list : (Dictionary.empty : Parameters).get? "p" = none ∧
    ∃ items, (list "p").StoresItems "a $\x7bb\x7d" .unknown .empty .unread items :=
  ⟨rfl, (store_agrees_with_parse (list "p") "a $\x7bb\x7d" .unknown .empty .unread rfl).2.1 rfl⟩

/-- The text of a list that is an expression is read as one, and stored as a list with one item. -/
theorem expression_stored_as_item :
    ¬∀ (d : AttributeDefinition) raw attr (ps : Parameters) position v, ps.get? d.parameter = none →
      d.parse raw attr position = .ok v → (d.store raw attr ps position).1 = .ok () →
        ps.Changes (d.store raw attr ps position).2 d.parameter (some v) := by
  intro h
  have hread : (list "p").parse "$\x7ba\x7d" .unknown .unread = .ok (.expression "$\x7ba\x7d") :=
    (parse_of_list rfl).trans (congrArg Except.ok (if_pos (by decide)))
  have hstored : ((list "p").store "$\x7ba\x7d" .unknown .empty .unread).1 = .ok () := by rfl
  have hlist := ((storesItems rfl rfl).success hstored).named
  have hvalue := hlist.symm.trans (h _ _ _ _ _ _ rfl hread hstored).named
  split at hvalue <;> cases hvalue

end AttributeDefinition

end ManagementScript
