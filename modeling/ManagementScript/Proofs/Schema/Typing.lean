import ManagementScript.Proofs.Schema.Acceptance
import ManagementScript.Proofs.Schema.Scalars
import ManagementScript.Proofs.Text.Words

/-!
The values of parameters have the types that their definitions declare. What is required of the
attributes of a construct is there among its parameters.
-/

namespace ManagementScript

/-! ### The items of lists -/

namespace Text

/-- A text that is one item of a list. -/
def IsWord (w : String) : Prop := w ≠ "" ∧ ∀ c ∈ w.toList, isSeparator c = false

theorem Separated.isWord (h : Separated cs ws) : ∀ w ∈ ws, IsWord w := by
  induction h with
  | none => exact List.forall_mem_nil _
  | @word _ _ word _ _ hne hword _ _ ih =>
    refine List.forall_mem_cons.2 ⟨⟨?_, ?_⟩, ih⟩
    · rwa [Ne, ← String.ofList_nil, String.ofList_inj]
    · rwa [String.toList_ofList]

theorem isWord_of_mem_words {s : String} (h : w ∈ words s) : IsWord w :=
  (words_eq_iff.1 rfl).isWord w h

end Text

namespace AttributeDefinition

/-- A text, which is an expression where it looks like one. -/
def IsText : Value → Prop
  | .string text => isExpression text = false
  | .expression text => isExpression text = true
  | _ => False

/-- An item of a list. -/
def IsItem (v : Value) : Prop := IsText v ∧ ∀ text ∈ v.text?, Text.IsWord text

/-- A value of the declared kind, within its bounds. -/
def AdmitsLiteral (d : AttributeDefinition) (v : Value) : Prop :=
  match d.kind, v with
  | .string, .string text => isExpression text = false
  | .boolean, .boolean _ => True
  | .int, .int n => -2147483648 ≤ n ∧ n ≤ 2147483647 ∧ ∀ min ∈ d.min, min ≤ n
  | .long, .long n =>
    -9223372036854775808 ≤ n ∧ n ≤ 9223372036854775807 ∧ ∀ min ∈ d.min, min ≤ n
  | .enumerated allowed, .string text => text ∈ allowed
  | .list, .list items =>
    1 ≤ items.length ∧ items.length ≤ Limits.listItems ∧ ∀ item ∈ items, IsItem item
  | _, _ => False

/-- A value of the declared kind, or an expression in its place. Lists have them as items only. -/
def Admits (d : AttributeDefinition) (v : Value) : Prop :=
  d.AdmitsLiteral v ∨
    d.kind ≠ .list ∧ ∃ text, v = .expression text ∧ isExpression text = true

theorem isItem_of_mem_splitItems (h : v ∈ splitItems raw) : IsItem v := by
  obtain ⟨w, hw, rfl⟩ := List.mem_map.1 h
  have hword := Text.isWord_of_mem_words hw
  split
  · next he => exact ⟨he, by simpa [Value.text?] using hword⟩
  · next he => exact ⟨by simpa [IsText] using he, by simpa [Value.text?] using hword⟩

theorem admits_of_value? {d : AttributeDefinition} (hk : d.kind ≠ .list)
    (hx : d.acceptsExpression = true) (h : d.value? raw = some v) : d.Admits v := by
  cases (parse_eq_ok_iff_reads hk).1 ((@parse_eq_ok_iff _ .unknown _ _ .unread).2 h) with
  | expression _ he => exact .inr ⟨hk, raw, rfl, isExpression_iff.2 he⟩
  | literal hd h =>
    apply Or.inl
    generalize hkind : d.kind = kind at h
    simp only [AdmitsLiteral, hkind]
    cases h with
    | string => exact Bool.eq_false_iff.2 fun he => hd hx (isExpression_iff.1 he)
    | boolean => trivial
    | int _ hn | long _ hn => exact ⟨hn.low, hn.high, hn.least⟩
    | enumerated ha => exact ha

/-- What a text that is accepted becomes is admitted. -/
theorem admits_of_mem_entries {d : AttributeDefinition} (hx : d.acceptsExpression = true)
    (ha : d.Accepts raw) (h : x ∈ d.entries raw) : d.Admits x.2 := by
  by_cases hk : d.kind = .list
  · simp only [Accepts, hk] at ha
    simp only [entries, hk] at h
    split at h
    · cases h
    · next hne =>
      rw [List.mem_singleton.1 h]
      apply Or.inl
      simp only [AdmitsLiteral, hk]
      exact ⟨List.length_pos_iff.2 hne, ha, fun item => isItem_of_mem_splitItems⟩
  · rw [entries] at h
    split at h
    · next hl => exact absurd hl hk
    · obtain ⟨v, hv, rfl⟩ := Option.map_eq_some_iff.1 (Option.mem_toList.1 h)
      exact admits_of_value? hk hx hv

theorem parameter_mem_entries {d : AttributeDefinition} (hk : d.kind ≠ .list)
    (ha : d.Accepts raw) : d.parameter ∈ (d.entries raw).map Prod.fst := by
  rw [Accepts] at ha
  rw [entries]
  split at ha
  · next hl => exact absurd hl hk
  · obtain ⟨v, hv⟩ := Option.isSome_iff_exists.1 ha
    simp [hv]

end AttributeDefinition

/-! ### Dictionaries of parameters -/

namespace Dictionary

variable {α : Type}

theorem mem_insertInto {entries : List (String × α)} (h : x ∈ insertInto key value entries) :
    x = (key, value) ∨ x ∈ entries := by
  induction entries with
  | nil => exact .inl (List.mem_singleton.1 h)
  | cons entry entries ih =>
    rw [insertInto] at h
    split at h
    · exact List.mem_cons.1 h
    · split at h
      · cases List.mem_cons.1 h with
        | inl h => exact .inl h
        | inr h => exact .inr (List.mem_cons_of_mem _ h)
      · cases List.mem_cons.1 h with
        | inl h => exact .inr (h ▸ List.mem_cons_self ..)
        | inr h =>
          cases ih h with
          | inl h => exact .inl h
          | inr h => exact .inr (List.mem_cons_of_mem _ h)

theorem mem_entries_setAll {d : Dictionary α} {pairs : List (String × α)}
    (h : x ∈ (d.setAll pairs).entries) : x ∈ d.entries ∨ x ∈ pairs := by
  induction pairs generalizing d with
  | nil => exact .inl h
  | cons pair pairs ih =>
    cases ih h with
    | inl h =>
      cases mem_insertInto h with
      | inl h => exact .inr (h ▸ List.mem_cons_self ..)
      | inr h => exact .inl h
    | inr h => exact .inr (List.mem_cons_of_mem _ h)

/-- Every entry of a dictionary is one of the pairs it is made of. -/
theorem mem_of_mem_ofList {pairs : List (String × α)} (h : x ∈ (ofList pairs).entries) :
    x ∈ pairs := by
  cases mem_entries_setAll h with
  | inl h => cases h
  | inr h => exact h

theorem contains_setAll {d : Dictionary α} {pairs : List (String × α)} :
    (d.setAll pairs).contains key = true ↔ d.contains key = true ∨ key ∈ pairs.map Prod.fst := by
  induction pairs generalizing d with
  | nil => simp
  | cons pair pairs ih =>
    have hset : (d.set pair.1 pair.2).contains key = true ↔ d.contains key = true ∨ key = pair.1 := by
      by_cases he : key = pair.1
      · simp [contains, he, get?_set_self]
      · simp [contains, he, get?_set_of_ne]
    have hcons : d.setAll (pair :: pairs) = (d.set pair.1 pair.2).setAll pairs := rfl
    rw [hcons, ih, hset, List.map_cons, List.mem_cons, or_assoc]

theorem contains_ofList {pairs : List (String × α)} :
    (ofList pairs).contains key = true ↔ key ∈ pairs.map Prod.fst := by
  apply (contains_setAll (d := empty)).trans
  simp [contains, get?, empty]

end Dictionary

/-! ### What a construct makes of a start tag -/

namespace Construct

/-- The parameters that are there after every start tag: those of required attributes. -/
def guaranteed (c : Construct) : List String :=
  c.required.filterMap fun attr =>
    if c.identifies attr then none
    else (c.parameters.lookup attr).bind fun d =>
      if d.kind = .list then none else some d.parameter

/-- The names of the parameters that attributes become. -/
def names (c : Construct) : List String := c.parameters.map (·.2.parameter)

theorem mem_names_of_entries {c : Construct} {e : Element} (h : p ∈ (c.entries e).map Prod.fst) :
    p ∈ c.names := by
  obtain ⟨x, hx, rfl⟩ := List.mem_map.1 h
  obtain ⟨d, hd, he⟩ := exists_of_mem_entries hx
  exact List.mem_map.2 ⟨d, hd, he⟩

theorem entriesOf_eq {c : Construct} (h : c.definition? a.1 = some d) (hi : c.identifies a.1 = false) :
    c.parameters.lookup a.1 = some d ∧ c.entriesOf a = d.entries a.2 := by
  simp only [definition?, hi, Bool.false_eq_true, ↓reduceIte] at h
  simp [entriesOf, hi, h]

theorem admits_of_mem_entries {c : Construct} {e : Element} (ha : c.Accepts e)
    (hx : ∀ d ∈ c.parameters, d.2.acceptsExpression = true) (h : x ∈ c.entries e) :
    ∃ d ∈ c.parameters, d.2.parameter = x.1 ∧ d.2.Admits x.2 := by
  obtain ⟨a, hmem, hxa⟩ := List.mem_flatMap.1 h
  obtain ⟨d, hd, haccepts⟩ := ha.listed a hmem
  cases hi : c.identifies a.1 with
  | true => simp [entriesOf, hi] at hxa
  | false =>
    obtain ⟨hl, he⟩ := entriesOf_eq hd hi
    rw [he] at hxa
    have hdmem := mem_of_lookup hl
    exact ⟨_, hdmem, (AttributeDefinition.fst_of_mem_entries hxa).symm,
      AttributeDefinition.admits_of_mem_entries (hx _ hdmem) haccepts hxa⟩

theorem mem_entries_of_guaranteed {c : Construct} {e : Element} (ha : c.Accepts e)
    (h : p ∈ c.guaranteed) : p ∈ (c.entries e).map Prod.fst := by
  obtain ⟨attr, hattr, hp⟩ := List.mem_filterMap.1 h
  obtain ⟨a, hmem, rfl⟩ := List.mem_map.1 (ha.complete attr hattr)
  obtain ⟨d, hd, haccepts⟩ := ha.listed a hmem
  cases hi : c.identifies a.1 with
  | true => simp [hi] at hp
  | false =>
    obtain ⟨hl, he⟩ := entriesOf_eq hd hi
    simp only [hi, hl, Bool.false_eq_true, ↓reduceIte, Option.bind_some,
      Option.ite_none_left_eq_some, Option.some.injEq] at hp
    obtain ⟨hk, rfl⟩ := hp
    obtain ⟨x, hx, hxp⟩ := List.mem_map.1 (AttributeDefinition.parameter_mem_entries hk haccepts)
    rw [← he] at hx
    exact List.mem_map.2 ⟨x, List.mem_flatMap.2 ⟨a, hmem, hx⟩, hxp⟩

end Construct

end ManagementScript
