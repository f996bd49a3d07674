import ManagementScript.Proofs.Compilation.Reads

/-!
The attributes of a start tag are read where the construct accepts them: each is in the vocabulary
of the grammar and in no namespace, and none is there twice.
-/

namespace ManagementScript

theorem AttributeName.localName_ofString {n : String} (h : ofString n ≠ .unknown) :
    (ofString n).localName = n := by
  rw [ofString] at h ⊢
  cases hf : vocabulary.find? (·.localName == n) with
  | none =>
    rw [hf] at h
    exact absurd rfl h
  | some attr =>
    have hp := List.find?_some hf
    exact eq_of_beq hp

namespace Construct

theorem Regular.ne_unknown {c : Construct} (hc : c.Regular) (h : c.AcceptsNamed attrs)
    (ha : a ∈ attrs) : a.1 ≠ .unknown := by
  intro he
  obtain ⟨d, hd, _⟩ := h.listed a ha
  rw [he, hc.known] at hd
  cases hd

/-- The text of the attribute that names the resource, or no text. -/
def nameOf (c : Construct) (e : Element) : String :=
  ((e.named.find? (c.identifies ·.1)).map (·.2)).getD ""

theorem find?_eq_lookup (attr : AttributeName) (attrs : List (AttributeName × String)) :
    (attrs.find? (·.1 == attr)).map (·.2) = attrs.lookup attr := by
  induction attrs with
  | nil => rfl
  | cons a attrs ih =>
    rw [List.find?_cons, List.lookup_cons, BEq.comm]
    cases attr == a.1 with
    | true => rfl
    | false => exact ih

theorem nameOf_eq {c : Construct} (hc : c.identifier = some (attr, d)) (e : Element) :
    c.nameOf e = e.nameBy attr := by
  have hi : c.identifies = (· == attr) := by
    funext other
    rw [identifies, hc]
  rw [nameOf, hi, find?_eq_lookup]
  rfl

@[simp] theorem nameOf_named (attr : AttributeName)
    (parameters : List (AttributeName × AttributeDefinition)) (required : List AttributeName)
    (e : Element) : (named attr parameters required).nameOf e = e.nameBy attr :=
  nameOf_eq rfl e

end Construct

namespace Cursor

theorem Distinct.nodup_named {c : Cursor} (h : c.Distinct) (nodes : List Node)
    (hu : ∀ a ∈ c.attributes, a.namespaceUri = none)
    (hk : ∀ a ∈ c.attributes, AttributeName.ofString a.localName ≠ .unknown) :
    ((c.element nodes).named.map Prod.fst).Nodup := by
  simp only [Element.named, element, List.map_map]
  refine List.pairwise_map.2 (List.Pairwise.imp_of_mem ?_ h)
  intro a b ha hb hne he
  have heq : (AttributeName.ofString a.localName).localName =
      (AttributeName.ofString b.localName).localName := congrArg AttributeName.localName he
  rw [AttributeName.localName_ofString (hk a ha), AttributeName.localName_ofString (hk b hb)] at heq
  exact hne (hu a ha) (hu b hb) heq

end Cursor

namespace Compilation

variable {δ α β : Type}

/-- An attribute by its name in the grammar, where the cursor is on its tag. -/
def known (c : Cursor) (a : Attribute) : Except CompilationError (AttributeName × String) :=
  if a.namespaceUri.isSome || AttributeName.ofString a.localName == .unknown then
    .error (.unexpectedAttribute a.localName c.localName c.position)
  else .ok (.ofString a.localName, a.value)

theorem known_eq_ok_iff {c : Cursor} {a : Attribute} : known c a = .ok b ↔
    (a.namespaceUri = none ∧ AttributeName.ofString a.localName ≠ .unknown) ∧
      b = (.ofString a.localName, a.value) := by
  rw [known]
  by_cases h : a.namespaceUri = none ∧ AttributeName.ofString a.localName ≠ .unknown
  · rw [if_neg (by simp [h]), Except.ok.injEq]
    exact eq_comm.trans (and_iff_right h).symm
  · have hif : (a.namespaceUri.isSome || AttributeName.ofString a.localName == .unknown) = true := by
      cases hn : a.namespaceUri with
      | none => simpa [hn] using h
      | some uri => rfl
    rw [if_pos hif]
    simp [h]

theorem known_eq_error {c : Cursor} {a : Attribute} (h : known c a = .error e) :
    e = .unexpectedAttribute a.localName c.localName c.position := by
  rw [known] at h
  split at h <;> cases h
  rfl

theorem mapM_apply {f : α → Compilation δ β} {g : α → Except CompilationError β}
    (h : ∀ a s, f a s = (g a, s)) (xs : List α) (s : CompilationState δ) :
    xs.mapM f s = (xs.mapM g, s) := by
  induction xs with
  | nil => rfl
  | cons x xs ih =>
    rw [List.mapM_cons, List.mapM_cons, bind_apply, h]
    cases g x with
    | error e => rfl
    | ok y =>
      simp only [bind_apply, ih]
      cases xs.mapM g <;> rfl

theorem attributes_apply (s : CompilationState δ) :
    attributes s = (s.cursor.attributes.mapM (known s.cursor), s) := by
  rw [attributes, getCursor_bind]
  apply mapM_apply
  intro a s
  rw [known]
  split <;> rfl

/-- The attributes of a start tag are read where the cursor is, and nothing is moved. -/
theorem readInto_apply (construct : Construct) (ps : Parameters) (s : CompilationState δ) :
    readInto construct ps s = (s.cursor.attributes.mapM (known s.cursor) >>=
      construct.read s.cursor.localName s.cursor.position ps, s) := by
  rw [readInto, getCursor_bind, bind_apply, attributes_apply]
  cases s.cursor.attributes.mapM (known s.cursor) <;> rfl

theorem attributes_eq_ok {s s' : CompilationState δ} (nodes : List Node) :
    attributes s = (.ok attrs, s') ↔
      (∀ a ∈ s.cursor.attributes,
        a.namespaceUri = none ∧ AttributeName.ofString a.localName ≠ .unknown) ∧
      attrs = (s.cursor.element nodes).named ∧ s' = s := by
  rw [attributes_apply, Prod.mk.injEq, mapM_eq_ok_iff fun _ _ => known_eq_ok_iff, and_assoc]
  exact and_congr_right fun _ => and_congr_right fun _ => eq_comm

theorem readInto_eq_ok {c : Construct} {s s' : CompilationState δ} (hc : c.Regular)
    (hf : c.Fresh ps) (hd : s.cursor.Distinct) (nodes : List Node) :
    readInto c ps s = (.ok r, s') ↔ c.Accepts (s.cursor.element nodes) ∧
      r = c.reading ps (s.cursor.element nodes).named ∧ s' = s := by
  rw [readInto, getCursor_bind, bind_eq_ok]
  simp only [attributes_eq_ok nodes, check_eq_ok]
  apply Iff.intro
  · intro h
    obtain ⟨attrs, s₁, ⟨ha, rfl, rfl⟩, hr, rfl⟩ := h
    have hnodup := hd.nodup_named nodes (fun a h => (ha a h).1) fun a h => (ha a h).2
    obtain ⟨haccepts, rfl⟩ := (hc.read_eq_ok_iff hnodup hf).1 hr
    exact ⟨⟨haccepts, fun a h => (ha a h).1⟩, rfl, rfl⟩
  · intro h
    obtain ⟨⟨haccepts, hu⟩, rfl, rfl⟩ := h
    have hk : ∀ a ∈ s'.cursor.attributes, AttributeName.ofString a.localName ≠ .unknown :=
      fun a h => hc.ne_unknown haccepts (List.mem_map_of_mem h)
    have hnodup := hd.nodup_named nodes hu hk
    exact ⟨_, s', ⟨fun a h => ⟨hu a h, hk a h⟩, rfl, rfl⟩,
      (hc.read_eq_ok_iff hnodup hf).2 ⟨haccepts, rfl⟩, rfl⟩

/-- What follows the reading of a start tag may depend on the attributes of that tag. -/
theorem Reads.readInto_bind {c : Construct} {g : Construct.Reading → Compilation δ β}
    {A : Element → Element → Prop} {r : Element → Element → β} {f : Element → Element → Output}
    (hc : c.Regular) (hf : c.Fresh ps)
    (h : ∀ t, Reads (g (c.reading ps t.named)) (A t) (r t) (f t)) :
    Reads (readInto c ps >>= g) (fun e => c.Accepts e ∧ A e e) (fun e => r e e)
      fun e => f e e := by
  intro s b s' hd
  rw [bind_eq_ok]
  apply Iff.intro
  · intro hm
    obtain ⟨reading, s₁, hr, hb⟩ := hm
    obtain ⟨_, rfl, rfl⟩ := (readInto_eq_ok hc hf hd []).1 hr
    obtain ⟨nodes, _, hn, _⟩ := (h _ hd).1 hb
    obtain ⟨htag, _⟩ := (readInto_eq_ok hc hf hd nodes).1 hr
    obtain ⟨nodes', d, hn', ha, rfl, hs⟩ := (h (s₁.cursor.element nodes) hd).1 hb
    obtain ⟨rfl, _⟩ := hn.unique hn'
    exact ⟨nodes, d, hn', ⟨htag, ha⟩, rfl, hs⟩
  · intro hm
    obtain ⟨nodes, d, hn, ⟨htag, ha⟩, rfl, hs⟩ := hm
    exact ⟨_, s, (readInto_eq_ok hc hf hd nodes).2 ⟨htag, rfl, rfl⟩,
      (h _ hd).2 ⟨nodes, d, hn, ha, rfl, hs⟩⟩

theorem Reads.readParameters_bind {c : Construct} {g : Parameters → Compilation δ β}
    {A : Element → Element → Prop} {r : Element → Element → β} {f : Element → Element → Output}
    (hc : c.Regular) (hf : c.Fresh ps)
    (h : ∀ t, Reads (g (ps.setAll (c.entries t))) (A t) (r t) (f t)) :
    Reads (readParameters c ps >>= g) (fun e => c.Accepts e ∧ A e e) (fun e => r e e)
      fun e => f e e := by
  rw [readParameters, bind_assoc]
  simp only [pure_bind]
  exact readInto_bind hc hf h

theorem Reads.readNamed_bind {c : Construct} {g : String × Parameters → Compilation δ β}
    {A : Element → Element → Prop} {r : Element → Element → β} {f : Element → Element → Output}
    (hc : c.Regular) (h : ∀ t, Reads (g (c.nameOf t, c.parametersOf t)) (A t) (r t) (f t)) :
    Reads (readNamed c >>= g) (fun e => c.Accepts e ∧ A e e) (fun e => r e e)
      fun e => f e e := by
  rw [readNamed, bind_assoc]
  simp only [pure_bind]
  exact readInto_bind hc c.fresh_empty h

end Compilation

end ManagementScript
