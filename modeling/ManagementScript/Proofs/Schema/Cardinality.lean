import ManagementScript.Proofs.Management.Grammar

/-! Sets of what was seen in a scope, as lists of it: which elements and names are still free. -/

namespace ManagementScript

namespace ElementSet

/-- A set that is made from elements has no other bits than theirs. -/
theorem testBit_foldl_insert (s : ElementSet) (es : List ElementName) (i : Nat) :
    (es.foldl insert s).bits.toNat.testBit i = true ↔
      s.bits.toNat.testBit i = true ∨ ∃ e ∈ es, e.index = i := by
  induction es generalizing s with
  | nil => simp
  | cons e es ih =>
    rw [List.foldl_cons, ih, insert, UInt64.toNat_or, Nat.testBit_or, testBit_bitOf]
    simp [or_assoc]

theorem testBit_ofList {es : List ElementName} {i : Nat} :
    (ofList es).bits.toNat.testBit i = true ↔ ∃ e ∈ es, e.index = i := by
  rw [ofList, testBit_foldl_insert]
  simp [empty]

theorem contains_ofList (es : List ElementName) (e : ElementName) :
    (ofList es).contains e = decide (e ∈ es) := by
  rw [contains_eq_testBit, Bool.eq_iff_iff, testBit_ofList, decide_eq_true_iff]
  apply Iff.intro
  · intro h
    obtain ⟨e', he', h⟩ := h
    exact ElementName.index_injective h ▸ he'
  · intro he
    exact ⟨e, he, rfl⟩

theorem ofList_concat (es : List ElementName) (e : ElementName) :
    ofList (es ++ [e]) = (ofList es).insert e := by
  rw [ofList, List.foldl_append]
  rfl

theorem intersects_ofList_iff {s : ElementSet} {group : List ElementName} :
    s.intersects (ofList group) = true ↔ ∃ e ∈ group, s.contains e = true := by
  rw [intersects, and_bne_zero_iff]
  simp only [testBit_ofList, contains_eq_testBit]
  apply Iff.intro
  · rintro ⟨_, hs, e, he, rfl⟩
    exact ⟨e, he, hs⟩
  · rintro ⟨e, he, hs⟩
    exact ⟨e.index, hs, e, he, rfl⟩

theorem intersects_ofList (es group : List ElementName) :
    (ofList es).intersects (ofList group) = false ↔ ∀ e ∈ es, e ∉ group := by
  rw [← Bool.not_eq_true, intersects_ofList_iff]
  simp only [contains_ofList, decide_eq_true_eq]
  apply Iff.intro
  · intro h e he hg
    exact h ⟨e, hg, he⟩
  · rintro h ⟨e, hg, he⟩
    exact h e he hg

theorem requireOnce_eq_ok_iff {s t : ElementSet} {e : ElementName} {p : Position} :
    s.requireOnce e p = .ok t ↔ s.contains e = false ∧ t = s.insert e := by
  rw [requireOnce, ite_error_eq_ok_iff, Bool.not_eq_true]

theorem requireOnce_eq_error_iff {s : ElementSet} {e : ElementName} {p : Position} {error : CompilationError} :
    s.requireOnce e p = .error error ↔
      s.contains e = true ∧ error = .duplicateElement e.localName p :=
  ite_error_eq_error_iff

theorem requireExclusive_eq_ok_iff {s t : ElementSet} {e : ElementName} {group : List ElementName}
    {p : Position} :
    s.requireExclusive e group p = .ok t ↔
      s.intersects (.ofList group) = false ∧ t = s.insert e := by
  rw [requireExclusive, ite_error_eq_ok_iff, Bool.not_eq_true]

theorem requireExclusive_eq_error_iff {s : ElementSet} {e : ElementName} {group : List ElementName}
    {p : Position} {error : CompilationError} :
    s.requireExclusive e group p = .error error ↔
      s.intersects (.ofList group) = true ∧
        error = .exclusiveViolation e.localName (group.map (·.localName)) p :=
  ite_error_eq_error_iff

/-- The element may stand in a scope where no two elements of the group may. -/
def Free (s : ElementSet) (group : List ElementName) (element : ElementName) : Prop :=
  if element ∈ group then s.intersects (.ofList group) = false else s.contains element = false

theorem free_ofList_iff {past : List Element} {e : Element} {group : List ElementName} :
    (ofList (past.map (·.kind))).Free group e.kind ↔ ∀ c ∈ past, c.Apart group e := by
  rw [Free]
  by_cases hg : e.kind ∈ group
  · rw [if_pos hg, intersects_ofList, List.forall_mem_map]
    refine forall₂_congr fun c _ => ?_
    apply Iff.intro
    · intro hc
      exact ⟨fun he => hc (he ▸ hg), fun h => hc h.1⟩
    · intro h hc
      exact h.2 ⟨hc, hg⟩
  · rw [if_neg hg, contains_ofList, decide_eq_false_iff_not]
    apply Iff.intro
    · intro h c hc
      exact ⟨fun he => h (List.mem_map.2 ⟨c, hc, he⟩), fun hb => hg hb.2⟩
    · intro h hmem
      obtain ⟨c, hc, he⟩ := List.mem_map.1 hmem
      exact (h c hc).1 he

end ElementSet

namespace NameSet

def insert (s : NameSet) (name : String) : NameSet := ⟨s.names.insert name⟩

def ofList (names : List String) : NameSet := names.foldl insert empty

theorem contains_insert (s : NameSet) (a b : String) :
    (s.insert a).contains b = (a == b || s.contains b) := Std.HashSet.contains_insert

theorem contains_foldl_insert (s : NameSet) (names : List String) (name : String) :
    (names.foldl insert s).contains name = (s.contains name || names.any (· == name)) := by
  induction names generalizing s with
  | nil => simp
  | cons other names ih =>
    rw [List.foldl_cons, ih, contains_insert, List.any_cons, ← Bool.or_assoc,
      Bool.or_comm (s.contains name)]

theorem contains_ofList (names : List String) (name : String) :
    (ofList names).contains name = decide (name ∈ names) := by
  rw [ofList, contains_foldl_insert, Bool.eq_iff_iff]
  simp [contains, empty]

theorem ofList_concat (names : List String) (name : String) :
    ofList (names ++ [name]) = (ofList names).insert name := by
  rw [ofList, List.foldl_append]
  rfl

theorem reserve_eq_ok_iff {s t : NameSet} {e : ElementName} {name : String} {p : Position} :
    s.reserve e name p = .ok t ↔ s.contains name = false ∧ t = s.insert name := by
  rw [reserve, ite_error_eq_ok_iff, Bool.not_eq_true]
  rfl

theorem contains_ofList_iff {past : List Element} {e : Element} {attr : AttributeName} :
    (ofList (past.map (·.nameBy attr))).contains (e.nameBy attr) = false ↔
      ∀ c ∈ past, c.Unlike attr e := by
  rw [contains_ofList, decide_eq_false_iff_not]
  apply Iff.intro
  · intro h c hc he
    exact h (List.mem_map.2 ⟨c, hc, he⟩)
  · intro h hmem
    obtain ⟨c, hc, he⟩ := List.mem_map.1 hmem
    exact h c hc he

end NameSet

end ManagementScript
