import ManagementScript.Compilation.FilterScope
import ManagementScript.Proofs.Compilation.Scopes
import ManagementScript.Proofs.Management.Translation

/-! The compilation of scopes with one filter and a cache before it. -/

namespace ManagementScript

namespace Element

/-- A cache below an owner that is not known yet. -/
def pendingCache (c : Element) : PendingCommand :=
  ⟨Address.root.append "cache" ((c.attribute? .kind).getD "by-search-time"),
    Construct.cache.parametersOf c⟩

end Element

namespace Compilation

variable {δ : Type} (grammar : GrammarNamespace) (owner : Address)

theorem reads_cache : Reads (cache : Compilation δ PendingCommand) (·.IsLeaf .cache)
    Element.pendingCache fun _ => .nil := by
  have hc : Construct.cache.Regular := by decide
  have hkind (e : Element) : (Construct.cache.reading .empty e.named).identifier =
      e.attribute? .kind := Construct.find?_eq_lookup .kind e.named
  apply Reads.congr
  · apply Reads.readInto_bind hc (Construct.fresh_empty _)
    intro t
    exact compiles_requireNoContent.bind fun _ => adds_pure _
  · intro e _
    exact ⟨fun h => ⟨h.1, h.2.1⟩, fun h => ⟨h.tag, h.empty, trivial⟩⟩
  · intro e _
    rw [hkind]
    rfl
  · intro e _
    rfl

/-- What is known of a scope behind some of its children. -/
def scopeAfter (past : List Element) : FilterScope where
  cache := ((past.filter (·.kind == .cache)).map (·.pendingCache)).head?
  filter := ((past.filter (·.kind != .cache)).map (·.kind)).head?

theorem scopeAfter_filter_eq_none {past : List Element} :
    (scopeAfter past).filter = none ↔ ∀ c ∈ past, c.kind = .cache := by
  simp [scopeAfter]

theorem scopeAfter_cache_eq_none {past : List Element} :
    (scopeAfter past).cache = none ↔ ∀ c ∈ past, c.kind ≠ .cache := by
  simp [scopeAfter]

section Scope

variable {alternatives : List ElementName} {accepts : Element → Prop}
  {entries : Element → List (String × Value)}
  {readFilter : Parameters → ElementName → Compilation δ Parameters}

/-- One child of a scope, as it is read behind `past`. -/
def visitInScope (alternatives : List ElementName)
    (readFilter : Parameters → ElementName → Compilation δ Parameters) :
    FilterScope × Parameters → ElementName → Compilation δ (FilterScope × Parameters) :=
  fun (scope, ps) element => do
    let (scope, isFilter) ← acceptInScope alternatives scope element
    if isFilter then return (scope, ← readFilter ps element) else return (scope, ps)

theorem readsAs_filter {past : List Element} (hfilter : (scopeAfter past).filter = none)
    (h : element ∈ alternatives)
    (hread : ReadsAs element (readFilter ps element) accepts (fun e => ps.setAll (entries e))
      fun _ => .nil) :
    ReadsAs element (visitInScope alternatives readFilter (scopeAfter past, ps) element) accepts
      (fun e => ({ scopeAfter past with filter := some element }, ps.setAll (entries e)))
      fun _ => .nil := by
  have hvisit : visitInScope alternatives readFilter (scopeAfter past, ps) element = (do
      let _ ← location
      return ({ scopeAfter past with filter := some element }, ← readFilter ps element)) := by
    simp [visitInScope, acceptInScope, hfilter, h]
  rw [hvisit]
  apply ReadsAs.location_bind
  intro p
  exact hread.bind_pure _

theorem readsAs_cache {past : List Element} (hfilter : (scopeAfter past).filter = none)
    (hcache : (scopeAfter past).cache = none) (h : ElementName.cache ∉ alternatives) :
    ReadsAs .cache (visitInScope alternatives readFilter (scopeAfter past, ps) .cache)
      (·.IsLeaf .cache)
      (fun e => ({ scopeAfter past with cache := some e.pendingCache }, ps)) fun _ => .nil := by
  have hvisit : visitInScope alternatives readFilter (scopeAfter past, ps) .cache = (do
      let _ ← location
      return ({ scopeAfter past with cache := some (← cache) }, ps)) := by
    simp [visitInScope, acceptInScope, hfilter, hcache, h]
  rw [hvisit]
  apply ReadsAs.location_bind
  intro p
  apply ReadsAs.bind_pure
  exact reads_cache.readsAs (fun _ _ => Iff.rfl) (fun _ _ _ => rfl) fun _ _ _ => rfl

/-- Nothing is taken behind the filter, and no second cache before it. -/
theorem acceptInScope_ne_ok {scope : FilterScope} {s s' : CompilationState δ}
    (h : scope.filter ≠ none ∨
      element ∉ alternatives ∧ (element = .cache → scope.cache ≠ none)) :
    acceptInScope alternatives scope element s ≠ (.ok a, s') := by
  have hunexpected {s s' : CompilationState δ} {a : FilterScope × Bool} :
      (unexpectedElement : Compilation δ _) s ≠ (.ok a, s') := by
    rw [unexpectedElement, getCursor_bind]
    exact throw_ne_ok
  rw [acceptInScope, Compilation.location_bind]
  split
  · split
    · exact throw_ne_ok
    · exact hunexpected
  next hfilter =>
  rcases h with h | ⟨h, hcache⟩
  · rw [Option.isSome_iff_ne_none] at hfilter
    exact absurd h hfilter
  rw [if_neg (by simpa using h)]
  split
  · next he =>
    have hsome := Option.isSome_iff_ne_none.2 (hcache (eq_of_beq he))
    rw [if_pos hsome]
    exact throw_ne_ok
  · exact hunexpected

theorem readsAs_refused {scope : FilterScope}
    (h : scope.filter ≠ none ∨
      element ∉ alternatives ∧ (element = .cache → scope.cache ≠ none))
    (hA : ∀ e, e.kind = element → ¬A e) :
    ReadsAs element (visitInScope alternatives readFilter (scope, ps) element) A r f := by
  intro s a s' _ he
  apply Iff.intro
  · intro hm
    obtain ⟨b, s₁, hm, _⟩ := bind_eq_ok.1 hm
    exact absurd hm (acceptInScope_ne_ok h)
  · intro hm
    obtain ⟨nodes, _, _, ha, _⟩ := hm
    exact absurd ha (hA _ he)

theorem visitsInScope (hcache : ElementName.cache ∉ alternatives)
    (hread : ∀ ps element, element ∈ alternatives → ReadsAs element (readFilter ps element) accepts
      (fun e => ps.setAll (entries e)) fun _ => .nil) (ps : Parameters) :
    VisitsBy (visitInScope alternatives readFilter)
      (fun past =>
        (scopeAfter past, ps.setAll ((past.filter (·.kind != .cache)).flatMap entries)))
      (fun c d => c.kind = .cache ∧ d.kind ∈ alternatives)
      (fun c => c.kind = .cache ∧ c.IsLeaf .cache ∨ c.kind ∈ alternatives ∧ accepts c)
      fun _ => .nil := by
  intro past element
  by_cases hf : (scopeAfter past).filter = none
  · have hpast := scopeAfter_filter_eq_none.1 hf
    have hnone : past.filter (·.kind != .cache) = [] := by simpa using hpast
    by_cases h : element ∈ alternatives
    · apply (readsAs_filter hf h (hread _ _ h)).congr
      · intro e he
        subst he
        exact ⟨fun ha => ⟨fun c hc => ⟨hpast c hc, h⟩, .inr ⟨h, ha⟩⟩,
          fun ha => ha.2.elim (fun hl => absurd (hl.1 ▸ h) hcache) (·.2)⟩
      · intro e he _
        subst he
        have hne : e.kind ≠ .cache := fun he => hcache (he ▸ h)
        simp [scopeAfter, hnone, hne]
      · intro e _ _
        rfl
    by_cases hc : element = .cache ∧ (scopeAfter past).cache = none
    · obtain ⟨rfl, hc⟩ := hc
      have hempty : past = [] :=
        List.eq_nil_iff_forall_not_mem.2 fun c hmem =>
          scopeAfter_cache_eq_none.1 hc c hmem (hpast c hmem)
      subst hempty
      apply (readsAs_cache hf hc hcache).congr
      · intro e he
        simp [he, hcache]
      · intro e he _
        simp [scopeAfter, he]
      · intro e _ _
        rfl
    · apply readsAs_refused
      · exact .inr ⟨h, fun he hn => hc ⟨he, hn⟩⟩
      · intro e he ha
        subst he
        obtain ⟨hcompat, ⟨hk, _⟩ | ⟨ha, _⟩⟩ := ha
        · refine hc ⟨hk, scopeAfter_cache_eq_none.2 fun c hmem _ => h (hcompat c hmem).2⟩
        · exact h ha
  · apply readsAs_refused (.inl hf)
    intro e he ha
    apply hf
    rw [scopeAfter_filter_eq_none]
    exact fun c hc => (ha.1 c hc).1

/-- A scope is read where it holds one of the alternatives and before it at most a cache. -/
theorem reads_filterScope (accepts : Element → Prop) (entries : Element → List (String × Value))
    (hcache : ElementName.cache ∉ alternatives)
    (hread : ∀ ps element, element ∈ alternatives → ReadsAs element (readFilter ps element) accepts
      (fun e => ps.setAll (entries e)) fun _ => .nil) (ps : Parameters) :
    Reads (filterScope grammar alternatives ps readFilter)
      (·.HoldsFilter grammar alternatives accepts)
      (fun e => (e.filterKind, (scopeAfter e.children).cache,
        ps.setAll (e.filters.flatMap entries))) fun _ => .nil := by
  have hv := visitsInScope hcache hread ps
  apply Reads.congr
  · apply Reads.bind (@VisitsBy.reads _ _ grammar _ _ _ _ _ hv) (Q := fun e => e.filters ≠ [])
      (b := fun e => (e.filterKind, (scopeAfter e.children).cache,
        ps.setAll (e.filters.flatMap entries))) (o := fun _ => .nil)
    intro e
    have hfilter : (scopeAfter e.children).filter = (e.filters.map (·.kind)).head? := rfl
    rw [Element.filterKind, List.headD_eq_head?_getD]
    cases hk : (e.filters.map (·.kind)).head? with
    | none =>
      have hnone : e.filters = [] := by simpa using hk
      simp only [hfilter.trans hk]
      exact Adds.location_bind fun p => adds_throw _ fun h => h hnone
    | some kind =>
      have hne : e.filters ≠ [] := by
        intro hnone
        rw [hnone] at hk
        cases hk
      simp only [hfilter.trans hk]
      exact (adds_pure _).congr (iff_of_true trivial hne)
  · intro e _
    apply Iff.intro
    · intro ⟨h, hne⟩
      obtain ⟨c, hc⟩ := List.exists_mem_of_ne_nil _ hne
      obtain ⟨hc, hk⟩ := List.mem_filter.1 hc
      rcases h.accepted c hc with ⟨hcache', _⟩ | ⟨ha, _⟩
      · simp [hcache'] at hk
      · exact ⟨h, c, hc, ha⟩
    · intro h
      obtain ⟨c, hc, _⟩ := Element.exists_filters_eq h hcache
      exact ⟨h.children, by simp [hc]⟩
  · intro e _
    rfl
  · intro e _
    exact (Output.append_nil _).trans (Output.concat_nils _)

end Scope

/-! ### The commands of a scope -/

theorem adds_pushWithCache (command : Command) (pending : Option PendingCommand) :
    Adds (pushWithCache command pending : Compilation δ Unit) True ()
      (.ofCommands (command :: (pending.map (·.resolve command.address)).toList)) := by
  cases pending with
  | none =>
    have h := (adds_push command).bind (g := fun _ => pure ()) (adds_pure (δ := δ) ())
    exact h.congr and_self_iff
  | some cache =>
    have h := (adds_push (δ := δ) command).bind (g := fun _ => push _)
      (adds_push (cache.resolve command.address))
    exact h.congr and_self_iff

/-- A scope that holds a filter has at most one cache. -/
theorem commands_caches {alternatives : List ElementName} {accepts : Element → Prop}
    (hcache : ElementName.cache ∉ alternatives)
    (h : Element.HoldsFilter grammar alternatives accepts e) :
    Resource.commandsOfAll owner e.caches =
      ((scopeAfter e.children).cache.map (·.resolve owner)).toList := by
  have hpair : (e.children.filter (·.kind == .cache)).Pairwise fun _ d => d.kind ∈ alternatives :=
    (h.children.compatible.filter _).imp fun h => h.2
  rw [Element.caches, scopeAfter]
  cases hs : e.children.filter (·.kind == .cache) with
  | nil => rfl
  | cons c cs =>
    cases cs with
    | nil => rfl
    | cons d ds =>
      have hd : d ∈ e.children.filter (·.kind == .cache) := by simp [hs]
      have hk : d.kind = .cache := by simpa using (List.mem_filter.1 hd).2
      rw [hs] at hpair
      have ha := List.rel_of_pairwise_cons hpair (List.mem_cons_self ..)
      exact absurd (hk ▸ ha) hcache

end Compilation

end ManagementScript
