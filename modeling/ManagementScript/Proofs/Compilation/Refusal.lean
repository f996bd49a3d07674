import ManagementScript.Proofs.Compilation.FilteredScope

/-!
What a scope with one filter refuses. The children before the first one that can not stand where it stands
are read, that child decides the error, and nothing behind it is looked at.
-/

namespace ManagementScript

/-! ### The children of a scope -/

namespace FilteredScope

/-- Children that a filter may follow: none, or a cache. -/
inductive Open : List Element → Prop where
  | empty : Open []
  | cached (h : cache.kind = .cache) : Open [cache]

/-- Children that are complete: a filter, with a cache before it or not. -/
inductive Filtered (alternatives : List ElementName) : List Element → Prop where
  | alone (h : filter.kind ∈ alternatives) : Filtered alternatives [filter]
  | cached (hc : cache.kind = .cache) (h : filter.kind ∈ alternatives) :
      Filtered alternatives [cache, filter]

/-- The first child that can not stand where it stands, behind others that can, and why it can not. -/
inductive Offends (alternatives : List ElementName) :
    List Element → Element → (Position → CompilationError) → Prop where
  | secondCache (hp : first.kind = .cache) (hc : c.kind = .cache) :
      Offends alternatives [first] c (.duplicateElement c.localName)
  | secondFilter (hp : Filtered alternatives past) (hc : c.kind ∈ alternatives) :
      Offends alternatives past c (.exclusiveViolation c.localName (alternatives.map (·.localName)))
  | behindFilter (hp : Filtered alternatives past) (hc : c.kind ∉ alternatives) :
      Offends alternatives past c (.unexpectedElement c.localName)
  | unknown (hp : Open past) (hc : c.kind ∉ alternatives) (hne : c.kind ≠ .cache) :
      Offends alternatives past c (.unexpectedElement c.localName)

variable {alternatives : List ElementName} {past children : List Element} {c : Element}

theorem Filtered.offends (h : Filtered alternatives past) (c : Element) :
    ∃ error, Offends alternatives past c error := by
  by_cases hc : c.kind ∈ alternatives
  · exact ⟨_, .secondFilter h hc⟩
  · exact ⟨_, .behindFilter h hc⟩

/-- Children are complete, or lack a filter, or one of them is the first that is refused. -/
theorem children_cases (alternatives : List ElementName) (children : List Element) :
    Filtered alternatives children ∨ Open children ∨
      ∃ past c rest error, children = past ++ c :: rest ∧ Offends alternatives past c error := by
  rcases children with _ | ⟨first, _ | ⟨second, rest⟩⟩
  · exact .inr (.inl .empty)
  · by_cases hfirst : first.kind ∈ alternatives
    · exact .inl (.alone hfirst)
    · by_cases hcache : first.kind = .cache
      · exact .inr (.inl (.cached hcache))
      · exact .inr (.inr ⟨[], first, [], _, rfl, .unknown .empty hfirst hcache⟩)
  · by_cases hfirst : first.kind ∈ alternatives
    · obtain ⟨error, hoffends⟩ := (Filtered.alone hfirst).offends second
      exact .inr (.inr ⟨[first], second, rest, error, rfl, hoffends⟩)
    by_cases hcache : first.kind = .cache
    · by_cases hsecond : second.kind ∈ alternatives
      · cases rest with
        | nil => exact .inl (.cached hcache hsecond)
        | cons third rest =>
          obtain ⟨error, hoffends⟩ := (Filtered.cached hcache hsecond).offends third
          exact .inr (.inr ⟨[first, second], third, rest, error, rfl, hoffends⟩)
      · by_cases hagain : second.kind = .cache
        · exact .inr (.inr ⟨[first], second, rest, _, rfl, .secondCache hcache hagain⟩)
        · exact .inr (.inr ⟨[first], second, rest, _, rfl, .unknown (.cached hcache) hsecond hagain⟩)
    · exact .inr (.inr ⟨[], first, second :: rest, _, rfl, .unknown .empty hfirst hcache⟩)

/-- Children of a scope, each of which may stand behind those before it. -/
structure Fitting (alternatives : List ElementName) (children : List Element) : Prop where
  kinds : ∀ c ∈ children, c.kind = .cache ∨ c.kind ∈ alternatives
  compatible : children.Pairwise fun c d => c.kind = .cache ∧ d.kind ∈ alternatives

theorem Open.fitting (h : Open children) : Fitting alternatives children := by
  cases h with
  | empty => exact ⟨List.forall_mem_nil _, .nil⟩
  | cached h => exact ⟨List.forall_mem_singleton.2 (.inl h), List.pairwise_singleton ..⟩

theorem Filtered.fitting (h : Filtered alternatives children) : Fitting alternatives children := by
  cases h with
  | alone h => exact ⟨List.forall_mem_singleton.2 (.inr h), List.pairwise_singleton ..⟩
  | cached hc h =>
    exact ⟨List.forall_mem_cons.2 ⟨.inl hc, List.forall_mem_singleton.2 (.inr h)⟩,
      List.pairwise_pair.2 ⟨hc, h⟩⟩

theorem Offends.fitting (h : Offends alternatives past c error) : Fitting alternatives past := by
  cases h with
  | secondCache hp => exact (Open.cached hp).fitting
  | secondFilter hp | behindFilter hp => exact hp.fitting
  | unknown hp => exact hp.fitting

end FilteredScope

namespace Compilation

open FilteredScope

variable {δ σ : Type} {grammar : GrammarNamespace}

theorem scopeAfter_of_open (h : Open children) : (scopeAfter children).filter = none := by
  rw [scopeAfter_filter_eq_none]
  cases h with
  | empty => exact List.forall_mem_nil _
  | cached h => exact List.forall_mem_singleton.2 h

theorem scopeAfter_of_filtered {alternatives : List ElementName} (hcache : ElementName.cache ∉ alternatives)
    (h : Filtered alternatives children) : (scopeAfter children).filter ≠ none := by
  rw [Ne, scopeAfter_filter_eq_none]
  intro hall
  have hnot {filter : Element} (hf : filter.kind ∈ alternatives) (hk : filter.kind = .cache) : False :=
    hcache (hk ▸ hf)
  cases h with
  | alone h => exact hnot h (hall _ (List.mem_singleton_self _))
  | cached _ h => exact hnot h (hall _ (by simp))

/-- A child that is refused is refused on its start tag. -/
theorem acceptInScope_refused {alternatives : List ElementName} {past : List Element} {c : Element}
    (hcache : ElementName.cache ∉ alternatives) (hunknown : ElementName.unknown ∉ alternatives)
    (h : Offends alternatives past c error) {s : CompilationState δ}
    (hname : s.cursor.localName = c.localName) :
    acceptInScope alternatives (scopeAfter past) c.kind s = (.error (error s.cursor.position), s) := by
  have hkind (hk : c.kind ≠ .unknown) : c.kind.localName = c.localName := ElementName.localName_ofString hk
  have hsome (hp : Filtered alternatives past) : (scopeAfter past).filter.isSome = true :=
    Option.isSome_iff_ne_none.2 (scopeAfter_of_filtered hcache hp)
  have hnone (hp : Open past) : ¬(scopeAfter past).filter.isSome = true := by
    rw [scopeAfter_of_open hp]
    exact Bool.false_ne_true
  rw [acceptInScope, location_bind]
  cases h with
  | @secondCache first _ hp hc =>
    have hcached : (scopeAfter [first]).cache.isSome = true := by simp [scopeAfter, hp]
    have hne : ¬alternatives.contains c.kind = true := by simpa [hc] using hcache
    rw [if_neg (hnone (.cached hp)), if_neg hne, if_pos (beq_iff_eq.2 hc), if_pos hcached,
      hkind (by simp [hc])]
    rfl
  | secondFilter hp hc =>
    rw [if_pos (hsome hp), if_pos (by simpa using hc), hkind fun hk => hunknown (hk ▸ hc)]
    rfl
  | behindFilter hp hc =>
    rw [if_pos (hsome hp), if_neg (by simpa using hc), unexpectedElement, getCursor_bind, hname]
    rfl
  | unknown hp hc hne =>
    rw [if_neg (hnone hp), if_neg (by simpa using hc), if_neg (by simpa using hne), unexpectedElement,
      getCursor_bind, hname]
    rfl

/-! ### Visits up to a child that is refused -/

section Visits

variable {visit : σ → ElementName → Compilation δ σ} {view : List Element → σ}
  {R : Element → Element → Prop} {A : Element → Prop} {error : Position → CompilationError}

theorem visitAmong_cons_eq_error {s s' : CompilationState δ} (hi : s.cursor.next = (.ok .start, i))
    (hns : i.namespaceUri = some grammar.uri) :
    visitAmong grammar visit seen (event :: events) s = (.error e, s') ↔
      visit seen (.ofString i.localName) { s with cursor := i } = (.error e, s') ∨
        ∃ seen₁ s₁, visit seen (.ofString i.localName) { s with cursor := i } = (.ok seen₁, s₁) ∧
          visitAmong grammar visit seen₁ events s₁ = (.error e, s') := by
  have hnext : nextElement grammar s = (.ok (some (.ofString i.localName)), { s with cursor := i }) :=
    nextElement_eq_ok.2 (.inr ⟨i, hi, hns, rfl, CompilationState.after_nil_iff.2 rfl⟩)
  rw [visitAmong, bind_apply, hnext]
  exact stateful_bind_eq_error

theorem exists_cons_of_visits {c d : Cursor} {events : List Xml.Event} (h : c.Visits es d)
    (hlen : c.pending.length ≤ events.length) : ∃ event rest, events = event :: rest := by
  have hpending := h.pending_lt
  exact List.exists_cons_of_length_pos (by omega)

/-- Visits that only read come upon a child that is refused, behind others that are taken. -/
theorem VisitsBy.visitAmong_refused (hv : VisitsBy visit view R A fun _ => .nil)
    {past taken rest : List Element} {c : Element} {events : List Xml.Event} {s : CompilationState δ}
    (hvisits : s.cursor.Visits (taken ++ c :: rest) d)
    (hns : ∀ e ∈ taken ++ c :: rest, e.namespaceUri = some grammar.uri) (hA : ∀ e ∈ taken, A e)
    (hR : (past ++ taken).Pairwise R) (hlen : s.cursor.pending.length ≤ events.length)
    (hrefused : ∀ i o, i.Spans c o → visit (view (past ++ taken)) c.kind { s with cursor := i } =
      (.error (error i.position), { s with cursor := i })) :
    ∃ i o, i.Spans c o ∧ visitAmong grammar visit (view past) events s =
      (.error (error i.position), { s with cursor := i }) := by
  induction taken generalizing past events s with
  | nil =>
    obtain ⟨event, events, rfl⟩ := exists_cons_of_visits hvisits hlen
    cases hvisits with
    | @child i o _ _ _ inner hi hin _ =>
      have hvisit := hrefused i o ⟨rfl, hin⟩
      rw [List.append_nil] at hvisit
      exact ⟨i, o, ⟨rfl, hin⟩,
        (visitAmong_cons_eq_error hi (hns _ (List.mem_cons_self ..))).2 (.inl hvisit)⟩
  | cons first taken ih =>
    obtain ⟨event, events, rfl⟩ := exists_cons_of_visits hvisits hlen
    rw [List.cons_append] at hvisits
    cases hvisits with
    | @child i o _ _ _ inner hi hin ho =>
      obtain ⟨hnsfirst, hnsrest⟩ := List.forall_mem_cons.1 hns
      obtain ⟨hAfirst, hAtaken⟩ := List.forall_mem_cons.1 hA
      have hcompat : ∀ b ∈ past, R b (i.element inner) := fun b hb =>
        (List.pairwise_append.1 hR).2.2 b hb _ (List.mem_cons_self ..)
      have hvisit := (@hv past _ { s with cursor := i } _ _ (Cursor.distinct_of_next hi) rfl).2
        ⟨inner, o, hin, ⟨hcompat, hAfirst⟩, rfl, CompilationState.after_nil_iff.2 rfl⟩
      have hlt := Cursor.next_pending_lt hi (by simp)
      have hlt' := hin.pending_lt
      rw [List.append_cons] at hR hrefused
      rw [List.length_cons] at hlen
      obtain ⟨i', o', hspans, hrun⟩ := @ih _ events { s with cursor := o } ho hnsrest hAtaken hR
        (Nat.le_of_lt_succ (by simp only; omega)) hrefused
      exact ⟨i', o', hspans, (visitAmong_cons_eq_error hi hnsfirst).2 (.inr ⟨_, _, hvisit, hrun⟩)⟩

theorem VisitsBy.forChildren_refused (hv : VisitsBy visit view R A fun _ => .nil)
    {taken rest : List Element} {c : Element} {s : CompilationState δ}
    (hvisits : s.cursor.Visits (taken ++ c :: rest) d)
    (hns : ∀ e ∈ taken ++ c :: rest, e.namespaceUri = some grammar.uri) (hA : ∀ e ∈ taken, A e)
    (hR : taken.Pairwise R)
    (hrefused : ∀ i o, i.Spans c o → visit (view taken) c.kind { s with cursor := i } =
      (.error (error i.position), { s with cursor := i })) :
    ∃ i o, i.Spans c o ∧ forChildren grammar (view []) visit s =
      (.error (error i.position), { s with cursor := i }) := by
  rw [forChildren, getCursor_bind]
  exact hv.visitAmong_refused hvisits hns hA hR (Nat.le_refl _) hrefused

end Visits

end Compilation

end ManagementScript
