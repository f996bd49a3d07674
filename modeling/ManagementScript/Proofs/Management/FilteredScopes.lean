import ManagementScript.Proofs.Compilation.Refusal
import ManagementScript.Proofs.Management.Semantics

/-!
How the scopes with one filter end: the authentication by a directory, the search for a user and the search
for groups. The order of their children alone tells, where each of these is accepted by itself.
-/

namespace ManagementScript

namespace FilteredScope

open Compilation

variable {δ : Type} {grammar : GrammarNamespace}

/-- The attributes are accepted, the children are in the namespace of the grammar, and each of them that is a
cache or a filter is accepted as such. -/
structure Proper (k : FilteredScope) (grammar : GrammarNamespace) (e : Element) : Prop where
  tag : k.construct.Accepts e
  blank : e.IsBlank
  namespaced : ∀ c ∈ e.children, c.namespaceUri = some grammar.uri
  caches : ∀ c ∈ e.children, c.kind = .cache → c.IsLeaf .cache
  filters : ∀ c ∈ e.children, c.kind ∈ k.alternatives → k.accepts grammar c

/-- How a scope fails on the state `s`: on the start tag of the first child that can not stand where it
stands, or at its end tag, which `d` is on, for want of a filter. Nothing but the cursor has changed. -/
inductive FailsOn (k : FilteredScope) (s : CompilationState δ) (e : Element) (d : Cursor) :
    CompilationError → CompilationState δ → Prop where
  | child (hsplit : e.children = past ++ c :: rest) (h : Offends k.alternatives past c error)
      (hi : i.Spans c o) : FailsOn k s e d (error i.position) { s with cursor := i }
  | filter (h : Open e.children) :
      FailsOn k s e d (.missingOneOf (k.alternatives.map (·.localName)) d.position) { s with cursor := d }

variable {k : FilteredScope} {e c : Element} {past rest : List Element} {d : Cursor}
  {s : CompilationState δ} {ps : Parameters}

theorem unknown_notMem_alternatives (k : FilteredScope) : ElementName.unknown ∉ k.alternatives := by
  cases k <;> decide

/-- What is read of the children of a scope. -/
theorem visits (k : FilteredScope) (grammar : GrammarNamespace) (ps : Parameters) :
    VisitsBy (visitInScope k.alternatives (k.readFilter grammar : _ → _ → Compilation δ Parameters))
      (fun past => (scopeAfter past, ps.setAll ((past.filter (·.kind != .cache)).flatMap k.entries)))
      (fun c d => c.kind = .cache ∧ d.kind ∈ k.alternatives)
      (fun c => c.kind = .cache ∧ c.IsLeaf .cache ∨ c.kind ∈ k.alternatives ∧ k.accepts grammar c)
      fun _ => .nil :=
  visitsInScope k.cache_notMem_alternatives (k.readsAs_filter grammar) ps

theorem Proper.accepted (h : k.Proper grammar e) (hf : Fitting k.alternatives past)
    (hsub : ∀ c ∈ past, c ∈ e.children) : ∀ c ∈ past,
      c.kind = .cache ∧ c.IsLeaf .cache ∨ c.kind ∈ k.alternatives ∧ k.accepts grammar c := by
  intro c hc
  rcases hf.kinds c hc with hcache | hfilter
  · exact .inl ⟨hcache, h.caches c (hsub c hc) hcache⟩
  · exact .inr ⟨hfilter, h.filters c (hsub c hc) hfilter⟩

theorem Proper.visits (h : k.Proper grammar e) (hspans : s.cursor.Spans e d) :
    s.cursor.Visits e.children d := by
  have hblank := h.blank
  have he : s.cursor.element e.content = e := hspans.start.symm
  exact Cursor.visits_iff.2 ⟨e.content, hspans.inside, by rwa [he], by rw [he]⟩

theorem Proper.holds (h : k.Proper grammar e) (hf : Fitting k.alternatives e.children) :
    e.Holds grammar (fun c d => c.kind = .cache ∧ d.kind ∈ k.alternatives) fun c =>
      c.kind = .cache ∧ c.IsLeaf .cache ∨ c.kind ∈ k.alternatives ∧ k.accepts grammar c :=
  ⟨h.blank, h.namespaced, hf.compatible, h.accepted hf fun _ hc => hc⟩

theorem Proper.holdsFilter (h : k.Proper grammar e) (hf : Filtered k.alternatives e.children) :
    e.HoldsFilter grammar k.alternatives (k.accepts grammar) where
  children := h.holds hf.fitting
  filter := by
    generalize e.children = children at hf
    cases hf with
    | alone h => exact ⟨_, List.mem_singleton_self _, h⟩
    | cached _ h => exact ⟨_, by simp, h⟩

/-- Behind the attributes of a scope its children are read, and where they are refused so is the scope. -/
theorem Proper.compile_eq_error (h : k.Proper grammar e) (hd : s.cursor.Distinct)
    (hspans : s.cursor.Spans e d) (owner : Address) : ∃ ps, ∀ error s',
      filterScope grammar k.alternatives ps (k.readFilter grammar) s = (.error error, s') →
        k.compile grammar owner s = (.error error, s') := by
  have he : s.cursor.element e.content = e := hspans.start.symm
  have hread := (readInto_eq_ok k.regular_construct (Construct.fresh_empty _) hd e.content).2
    ⟨he.symm ▸ h.tag, rfl, rfl⟩
  refine ⟨(k.construct.reading .empty (s.cursor.element e.content).named).parameters, ?_⟩
  intro error s' hrun
  rw [compile_eq, readParameters, bind_assoc]
  simp only [pure_bind]
  exact stateful_bind_eq_error.2 (.inr ⟨_, _, hread, stateful_bind_eq_error.2 (.inl hrun)⟩)

theorem Proper.filterScope_refused (h : k.Proper grammar e) (hspans : s.cursor.Spans e d)
    (hsplit : e.children = past ++ c :: rest) (hr : Offends k.alternatives past c error)
    (ps : Parameters) : ∃ i o, i.Spans c o ∧
      filterScope grammar k.alternatives ps (k.readFilter grammar) s =
        (.error (error i.position), { s with cursor := i }) := by
  have hvisits := h.visits hspans
  have hns := h.namespaced
  rw [hsplit] at hvisits hns
  have haccepted := h.accepted hr.fitting fun b hb => hsplit ▸ List.mem_append_left _ hb
  have hfails (ps : Parameters) (i o : Cursor) (hi : i.Spans c o) :
      visitInScope k.alternatives (k.readFilter grammar) (scopeAfter past, ps) c.kind
        { s with cursor := i } = (.error (error i.position), { s with cursor := i }) := by
    have hname : i.localName = c.localName := (congrArg Element.localName hi.start).symm
    exact stateful_bind_eq_error.2 (.inl (acceptInScope_refused k.cache_notMem_alternatives
      k.unknown_notMem_alternatives hr hname))
  obtain ⟨i, o, hi, hrun⟩ := (k.visits grammar ps).forChildren_refused hvisits hns haccepted
    hr.fitting.compatible (hfails _)
  exact ⟨i, o, hi, stateful_bind_eq_error.2 (.inl hrun)⟩

theorem Proper.filterScope_open (h : k.Proper grammar e) (hd : s.cursor.Distinct)
    (hspans : s.cursor.Spans e d) (ho : Open e.children) (ps : Parameters) :
    filterScope grammar k.alternatives ps (k.readFilter grammar) s =
      (.error (.missingOneOf (k.alternatives.map (·.localName)) d.position), { s with cursor := d }) := by
  have he : s.cursor.element e.content = e := hspans.start.symm
  have hmoved : s.After d (.concat (e.children.map fun _ => .nil)) { s with cursor := d } := by
    rw [Output.concat_nils]
    exact CompilationState.after_nil_iff.2 rfl
  have hrun := ((k.visits grammar ps).reads hd).2 ⟨e.content, d, hspans.inside,
    he.symm ▸ h.holds ho.fitting, rfl, he.symm ▸ hmoved⟩
  refine stateful_bind_eq_error.2 (.inr ⟨_, _, hrun, ?_⟩)
  simp only [he, scopeAfter_of_open ho]
  rfl

/-- The command of a cache below its owner. -/
def cacheCommand (owner : Address) (c : Element) : Command :=
  ⟨owner.append "cache" ((c.attribute? .kind).getD "by-search-time"), Construct.cache.parametersOf c⟩

/-- The commands of a scope with the given children before its filter: that of the scope, and behind it that
of the cache. -/
def commands (k : FilteredScope) (owner : Address) (e : Element) (front : List Element) (filter : Element) :
    List Command :=
  ⟨k.address owner filter.kind, .ofList (k.construct.entries e ++ k.entries filter)⟩ ::
    front.map (cacheCommand (k.address owner filter.kind))

theorem Filtered.commands_eq (h : Filtered k.alternatives e.children) (owner : Address) :
    ∃ front filter, e.children = front ++ [filter] ∧ filter.kind ∈ k.alternatives ∧
      k.command owner e :: ((scopeAfter e.children).cache.map
        (·.resolve (k.command owner e).address)).toList = k.commands owner e front filter := by
  have hnot {filter : Element} (hf : filter.kind ∈ k.alternatives) : filter.kind ≠ .cache :=
    fun hk => k.cache_notMem_alternatives (hk ▸ hf)
  generalize hc : e.children = children at h
  cases h with
  | @alone filter h =>
    refine ⟨[], filter, rfl, h, ?_⟩
    have hfilters : e.filters = [filter] := by simp [Element.filters, hc, hnot h]
    simp [command, commands, Element.filterKind, hfilters, scopeAfter, hnot h]
  | @cached cache filter hcache h =>
    refine ⟨[cache], filter, rfl, h, ?_⟩
    have hfilters : e.filters = [filter] := by simp [Element.filters, hc, hcache, hnot h]
    simp [command, commands, Element.filterKind, hfilters, scopeAfter, hcache]
    rfl

/-- A complete scope is compiled where there is room for its commands. -/
theorem Proper.compile_eq_ok (h : k.Proper grammar e) (hd : s.cursor.Distinct)
    (hspans : s.cursor.Spans e d) (owner : Address) (hroom : s.script.size + 2 ≤ Limits.commands)
    (hf : Filtered k.alternatives e.children) :
    ∃ front filter s', e.children = front ++ [filter] ∧ filter.kind ∈ k.alternatives ∧
      k.compile grammar owner s = (.ok (), s') ∧ s.After d (.ofCommands (k.commands owner e front filter)) s' := by
  obtain ⟨front, filter, hsplit, hfilter, hcommands⟩ := hf.commands_eq owner
  have hlength : (k.commands owner e front filter).length ≤ 2 := by
    have hcount : e.children.length ≤ 2 := by
      generalize e.children = children at hf
      cases hf with
      | alone => exact Nat.le_succ _
      | cached => exact Nat.le_refl _
    rw [hsplit, List.length_append, List.length_singleton] at hcount
    rw [commands, List.length_cons, List.length_map]
    omega
  have hafter : ∃ s', s.After d ⟨k.commands owner e front filter, []⟩ s' :=
    CompilationState.exists_after (fun _ => by omega) d []
  obtain ⟨s', hs⟩ := hafter
  have he : s.cursor.element e.content = e := hspans.start.symm
  refine ⟨front, filter, s', hsplit, hfilter, (k.compiles grammar owner hd).2
    ⟨e.content, d, hspans.inside, he.symm ▸ ⟨h.tag, h.holdsFilter hf⟩, rfl, ?_⟩, hs⟩
  simp only [he, hcommands]
  exact hs

theorem Proper.exists_failsOn (h : k.Proper grammar e) (hd : s.cursor.Distinct)
    (hspans : s.cursor.Spans e d) (owner : Address) (hne : ¬Filtered k.alternatives e.children) :
    ∃ error s', k.compile grammar owner s = (.error error, s') ∧ k.FailsOn s e d error s' := by
  obtain ⟨ps, hfails⟩ := h.compile_eq_error hd hspans owner
  rcases children_cases k.alternatives e.children with hf | ho | ⟨past, c, rest, error, hsplit, hr⟩
  · exact absurd hf hne
  · exact ⟨_, _, hfails _ _ (h.filterScope_open hd hspans ho ps), .filter ho⟩
  · obtain ⟨i, o, hi, hrun⟩ := h.filterScope_refused hspans hsplit hr ps
    exact ⟨_, _, hfails _ _ hrun, .child hsplit hr hi⟩

/-- A scope is compiled exactly if its children are one filter, or a cache and one filter. Its own command is
added then, and that of the cache behind it. Otherwise nothing is added, and the first child that can not
stand where it stands decides the error, or else the filter that is missing. -/
theorem filtered_scope_outcome (k : FilteredScope) {e : Element} {c d : Cursor} {s : CompilationState δ}
    (hstart : c.next = (.ok .start, s.cursor)) (hspans : s.cursor.Spans e d) (h : k.Proper grammar e)
    (hroom : s.script.size + 2 ≤ Limits.commands) (owner : Address) :
    ((∃ s', k.compile grammar owner s = (.ok (), s')) ↔ Filtered k.alternatives e.children) ∧
    (∀ s', k.compile grammar owner s = (.ok (), s') → ∃ front filter,
      e.children = front ++ [filter] ∧ filter.kind ∈ k.alternatives ∧
        s.After d (.ofCommands (k.commands owner e front filter)) s') ∧
    (∀ error s', k.compile grammar owner s = (.error error, s') → k.FailsOn s e d error s') := by
  have hd := Cursor.distinct_of_next hstart
  by_cases hf : Filtered k.alternatives e.children
  · obtain ⟨front, filter, s₁, hsplit, hfilter, hrun, hs₁⟩ := h.compile_eq_ok hd hspans owner hroom hf
    refine ⟨iff_of_true ⟨s₁, hrun⟩ hf, fun s' hok => ?_, fun error s' herror => ?_⟩
    · cases hrun.symm.trans hok
      exact ⟨front, filter, hsplit, hfilter, hs₁⟩
    · cases hrun.symm.trans herror
  · obtain ⟨error₁, s₁, hrun, hfails⟩ := h.exists_failsOn hd hspans owner hf
    refine ⟨iff_of_false ?_ hf, fun s' hok => ?_, fun error s' herror => ?_⟩
    · rintro ⟨s', hok⟩
      cases hrun.symm.trans hok
    · cases hrun.symm.trans hok
    · cases hrun.symm.trans herror
      exact hfails

namespace UserSearchSample

open Compilation.RealmSample (element node tags cursor)

def cache : Element := element "cache" [⟨none, "type", "by-access-time"⟩] []

def filter : Element := element "username-is-dn" [] []

def search : Element := element "username-to-dn" [] [node cache, node filter]

def inner : List Xml.Event := tags "cache" " type='by-access-time'" [] ++ tags "username-is-dn" "" []

/-- The state on the start tag of a search with a cache. -/
def state : CompilationState Unit where
  cursor := cursor ["username-to-dn"] [] (inner ++ [.finish 0 ⟨.ok none, "username-to-dn"⟩])
  script := .empty
  delegate := ()
  events := #[]

theorem onStart : (cursor [] [] (tags "username-to-dn" "" inner)).next = (.ok .start, state.cursor) := by
  rfl

theorem spans : ∃ d, state.cursor.Spans search d := by
  apply Exists.intro
  apply Cursor.Spans.mk rfl
  apply Cursor.Encloses.element (i := cursor ["cache", "username-to-dn"] cache.attributes _) rfl (by rfl)
  · exact .finish rfl (by rfl)
  · apply Cursor.Encloses.element (i := cursor ["username-is-dn", "username-to-dn"] [] _) rfl (by rfl)
    · exact .finish rfl (by rfl)
    · exact .finish rfl (by rfl)

theorem children : search.children = [cache, filter] := rfl

theorem kind_cache : cache.kind = .cache := by decide

theorem kind_filter : filter.kind = .usernameIsDn := by decide

theorem isLeaf_cache : cache.IsLeaf .cache where
  tag := ⟨⟨List.forall_mem_singleton.2 ⟨_, rfl, rfl⟩, List.forall_mem_nil _⟩,
    List.forall_mem_singleton.2 rfl⟩
  empty := ⟨List.forall_mem_nil _, rfl⟩

theorem isUserFilter : filter.IsUserFilter := by
  rw [Element.IsUserFilter, kind_filter]
  exact ⟨rfl, List.forall_mem_nil _, rfl⟩

theorem proper : userSearch.Proper .domain42 search where
  tag := ⟨⟨List.forall_mem_nil _, List.forall_mem_nil _⟩, List.forall_mem_nil _⟩
  blank := List.forall_mem_nil _
  namespaced := by
    rw [children]
    exact List.forall_mem_cons.2 ⟨rfl, List.forall_mem_singleton.2 rfl⟩
  caches := by
    rw [children, List.forall_mem_cons, List.forall_mem_singleton, kind_filter]
    exact ⟨fun _ => isLeaf_cache, fun h => by cases h⟩
  filters := by
    rw [children, List.forall_mem_cons, List.forall_mem_singleton, kind_cache]
    exact ⟨fun h => absurd h userSearch.cache_notMem_alternatives, fun _ => isUserFilter⟩

end UserSearchSample

open UserSearchSample in
theorem filtered_scope_outcome_userSearch : ∃ (c d : Cursor) (s' : CompilationState Unit),
    c.next = (.ok .start, state.cursor) ∧
    state.cursor.Spans search d ∧ userSearch.Proper .domain42 search ∧
    state.script.size + 2 ≤ Limits.commands ∧
    usernameToDn .domain42 .root state = (.ok (), s') ∧ s'.script.toList.map (·.address) =
      [Address.root.append "username-to-dn" "username-is-dn",
        (Address.root.append "username-to-dn" "username-is-dn").append "cache" "by-access-time"] := by
  obtain ⟨d, hspans⟩ := spans
  have hroom : state.script.size + 2 ≤ Limits.commands := by decide
  obtain ⟨hiff, hcommands, -⟩ := filtered_scope_outcome userSearch onStart hspans proper hroom .root
  have hfiltered : Filtered Element.userFilters search.children :=
    .cached kind_cache (by decide)
  obtain ⟨s', hrun⟩ := hiff.2 hfiltered
  obtain ⟨front, filter, hsplit, -, hs⟩ := hcommands s' hrun
  have hpair : front ++ [filter] = [UserSearchSample.cache] ++ [UserSearchSample.filter] := hsplit.symm
  obtain ⟨rfl, hfilter⟩ := List.append_inj' hpair rfl
  obtain rfl := List.singleton_inj.1 hfilter
  refine ⟨_, d, s', onStart, hspans, proper, hroom, hrun, ?_⟩
  rw [hs.script.toList]
  decide +kernel

end FilteredScope

end ManagementScript
