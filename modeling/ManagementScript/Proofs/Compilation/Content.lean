import ManagementScript.Proofs.Compilation.Reads

/-!
What stands inside an element: nothing, text, or children that are visited one after the other. The
rule for children is that of every scope of the grammar: what a visit knows of the children before
is a view of them.
-/

namespace ManagementScript.Compilation

variable {δ α σ : Type}

theorem nextInside_eq_ok {s s' : CompilationState δ} : nextInside s = (.ok tag, s') ↔
    tag ≠ .endOfDocument ∧ ∃ i, s.cursor.next = (.ok tag, i) ∧ s.After i .nil s' := by
  rw [nextInside, bind_eq_ok]
  apply Iff.intro
  · intro h
    obtain ⟨tag', s₁, hm, h⟩ := h
    obtain ⟨i, hi, hs⟩ := move_eq_ok.1 hm
    cases tag' with
    | endOfDocument => exact absurd h throw_ne_ok
    | start | finish =>
      obtain ⟨rfl, rfl⟩ := pure_eq_ok.1 h
      exact ⟨by simp, i, hi, hs⟩
  · intro h
    obtain ⟨ht, i, hi, hs⟩ := h
    refine ⟨tag, s', move_eq_ok.2 ⟨i, hi, hs⟩, ?_⟩
    cases tag with
    | endOfDocument => exact absurd rfl ht
    | start | finish => exact pure_eq_ok.2 ⟨rfl, rfl⟩

theorem requireNoContent_eq_ok {s s' : CompilationState δ} :
    requireNoContent s = (.ok u, s') ↔
      ∃ i, s.cursor.next = (.ok .finish, i) ∧ s.After i .nil s' := by
  rw [requireNoContent, bind_eq_ok]
  apply Iff.intro
  · intro h
    obtain ⟨tag, s₁, hm, h⟩ := h
    obtain ⟨ht, i, hi, hs⟩ := nextInside_eq_ok.1 hm
    cases tag with
    | endOfDocument => exact absurd rfl ht
    | start => exact absurd h throw_ne_ok
    | finish =>
      obtain ⟨_, rfl⟩ := pure_eq_ok.1 h
      exact ⟨i, hi, hs⟩
  · intro h
    obtain ⟨i, hi, hs⟩ := h
    exact ⟨.finish, s', nextInside_eq_ok.2 ⟨by simp, i, hi, hs⟩, pure_eq_ok.2 ⟨rfl, rfl⟩⟩

theorem compiles_requireNoContent :
    Compiles (requireNoContent : Compilation δ Unit) Element.IsEmpty fun _ => .nil := by
  intro s u s' _
  rw [requireNoContent_eq_ok]
  apply Iff.intro
  · intro h
    obtain ⟨i, hi, hs⟩ := h
    obtain ⟨nodes, hn, hb, hc⟩ := (Cursor.Visits.finish hi).encloses
    exact ⟨nodes, i, hn, ⟨hb, hc⟩, rfl, hs⟩
  · intro h
    obtain ⟨nodes, i, hn, ⟨hb, hc⟩, _, hs⟩ := h
    cases Cursor.visits_iff.2 ⟨nodes, hn, hb, hc⟩ with
    | finish hi => exact ⟨i, hi, hs⟩

theorem reads_elementText : Reads (move Cursor.elementText : Compilation δ String)
    (fun e => e.children = []) Element.text fun _ => .nil := by
  intro s text s' _
  rw [move_eq_ok]
  simp only [Cursor.elementText_eq_ok_iff]
  apply Iff.intro
  · intro h
    obtain ⟨c, ⟨nodes, hn, hc, rfl⟩, hs⟩ := h
    exact ⟨nodes, c, hn, hc, rfl, hs⟩
  · intro h
    obtain ⟨nodes, c, hn, hc, rfl, hs⟩ := h
    exact ⟨c, ⟨nodes, hn, hc, rfl⟩, hs⟩

/-- What is compiled apart is compiled from an empty script, and the script outside is kept. -/
theorem isolated_eq_ok {m : Compilation δ α} {s s' : CompilationState δ} :
    isolated m s = (.ok (a, script), s') ↔
      m { s with script := .empty } = (.ok a, { s' with script := script }) ∧
        s'.script = s.script := by
  simp only [isolated]
  apply Iff.intro
  · intro h
    split at h
    · next hm =>
      cases h
      exact ⟨hm, rfl⟩
    · cases h
  · intro h
    obtain ⟨cursor, outer, delegate, events⟩ := s
    obtain ⟨hm, rfl⟩ := h
    rw [hm]

/-- What is compiled apart is known with its commands; of its output only the events are added. -/
theorem Reads.isolated {m : Compilation δ α} (h : Reads m A r f) :
    Reads (isolated m) (fun e => A e ∧ (f e).Fits) (fun e => (r e, .ofList (f e).commands))
      fun e => ⟨[], (f e).events⟩ := by
  intro s ⟨a, script⟩ s' hd
  rw [isolated_eq_ok, @h { s with script := .empty } _ _ hd]
  apply Iff.intro
  · intro h
    obtain ⟨⟨nodes, c, hn, ha, rfl, hs⟩, hscript⟩ := h
    have ht : script = .ofList (f (s.cursor.element nodes)).commands :=
      Script.ext_toList hs.script.toList
    exact ⟨nodes, c, hn, ⟨ha, hs.fits⟩, by rw [ht], hs.cursor, Script.grows_nil_iff.2 hscript,
      hs.delegate, hs.events⟩
  · intro h
    obtain ⟨nodes, c, hn, ⟨ha, hfits⟩, hr, hs⟩ := h
    cases hr
    exact ⟨⟨nodes, c, hn, ha, rfl, hs.cursor, ⟨rfl, fun _ => hfits⟩, hs.delegate, hs.events⟩,
      Script.grows_nil_iff.1 hs.script⟩

/-! ### Children -/

theorem requireNamespace_eq_ok {s s' : CompilationState δ} :
    requireNamespace grammar s = (.ok u, s') ↔
      s.cursor.namespaceUri = some grammar.uri ∧ s' = s := by
  rw [requireNamespace, getCursor_bind]
  by_cases h : s.cursor.namespaceUri = some grammar.uri
  · simp [h, pure_eq_ok]
  · simp [h, throw_ne_ok]

theorem nextElement_eq_ok {s s' : CompilationState δ} : nextElement grammar s = (.ok r, s') ↔
    (r = none ∧ ∃ d, s.cursor.next = (.ok .finish, d) ∧ s.After d .nil s') ∨
      ∃ i, s.cursor.next = (.ok .start, i) ∧ i.namespaceUri = some grammar.uri ∧
        r = some (.ofString i.localName) ∧ s.After i .nil s' := by
  rw [nextElement, bind_eq_ok]
  apply Iff.intro
  · intro h
    obtain ⟨tag, s₁, hm, h⟩ := h
    obtain ⟨ht, i, hi, hs⟩ := nextInside_eq_ok.1 hm
    cases tag with
    | endOfDocument => exact absurd rfl ht
    | start =>
      obtain ⟨_, s₂, hn, hr⟩ := bind_eq_ok.1 h
      obtain ⟨hn, rfl⟩ := requireNamespace_eq_ok.1 hn
      rw [getCursor_bind] at hr
      obtain ⟨rfl, rfl⟩ := pure_eq_ok.1 hr
      rw [hs.cursor] at hn ⊢
      exact .inr ⟨i, hi, hn, rfl, hs⟩
    | finish =>
      obtain ⟨rfl, rfl⟩ := pure_eq_ok.1 h
      exact .inl ⟨rfl, i, hi, hs⟩
  · intro h
    rcases h with ⟨rfl, d, hd, hs⟩ | ⟨i, hi, hn, rfl, hs⟩
    · exact ⟨.finish, s', nextInside_eq_ok.2 ⟨by simp, d, hd, hs⟩, pure_eq_ok.2 ⟨rfl, rfl⟩⟩
    · refine ⟨.start, s', nextInside_eq_ok.2 ⟨by simp, i, hi, hs⟩, ?_⟩
      rw [← hs.cursor] at hn ⊢
      exact bind_eq_ok.2 ⟨(), s', requireNamespace_eq_ok.2 ⟨hn, rfl⟩, pure_eq_ok.2 ⟨rfl, rfl⟩⟩

section Children

variable {grammar : GrammarNamespace} {visit : σ → ElementName → Compilation δ σ}
  {view : List Element → σ} {R : Element → Element → Prop} {A : Element → Prop}
  {f : Element → Output}

theorem pairwise_concat {past : List Element} (hR : past.Pairwise R) (h : ∀ c ∈ past, R c e) :
    (past ++ [e]).Pairwise R :=
  List.pairwise_append.2 ⟨hR, List.pairwise_singleton R e, fun c hc _ hd =>
    List.mem_singleton.1 hd ▸ h c hc⟩

/-- A visit knows the children before by a view of them, and takes one that is accepted and that
each of them is compatible with. -/
def VisitsBy (visit : σ → ElementName → Compilation δ σ) (view : List Element → σ)
    (R : Element → Element → Prop) (A : Element → Prop) (f : Element → Output) : Prop :=
  ∀ past element, ReadsAs element (visit (view past) element)
    (fun e => (∀ c ∈ past, R c e) ∧ A e) (fun e => view (past ++ [e])) f

theorem visitAmong_nil_ne_ok {s s' : CompilationState δ} (hp : s.cursor.pending = []) :
    visitAmong grammar visit seen [] s ≠ (.ok seen', s') := by
  intro h
  obtain ⟨_, _, hn, _⟩ := bind_eq_ok.1 h
  obtain ⟨r, s₂, hn, _⟩ := bind_eq_ok.1 hn
  have hlength : s.cursor.pending.length = 0 := by rw [hp, List.length_nil]
  rcases nextElement_eq_ok.1 hn with ⟨_, d, hd, _⟩ | ⟨i, hi, _⟩
  · have := Cursor.next_pending_lt hd (by simp)
    omega
  · have := Cursor.next_pending_lt hi (by simp)
    omega

/-- A visit of children ends at an end tag, or begins with the child at whose start tag it is then. -/
theorem visitAmong_cons_eq_ok {s s' : CompilationState δ} :
    visitAmong grammar visit seen (event :: events) s = (.ok seen', s') ↔
      (∃ d, s.cursor.next = (.ok .finish, d) ∧ seen' = seen ∧ s.After d .nil s') ∨
        ∃ i seen₁ s₁, s.cursor.next = (.ok .start, i) ∧ i.namespaceUri = some grammar.uri ∧
          visit seen (.ofString i.localName) { s with cursor := i } = (.ok seen₁, s₁) ∧
          visitAmong grammar visit seen₁ events s₁ = (.ok seen', s') := by
  rw [visitAmong, bind_eq_ok]
  apply Iff.intro
  · intro h
    obtain ⟨r, s₁, hn, h⟩ := h
    rcases nextElement_eq_ok.1 hn with ⟨rfl, d, hd, hs⟩ | ⟨i, hi, hns, rfl, hs⟩
    · obtain ⟨rfl, rfl⟩ := pure_eq_ok.1 h
      exact .inl ⟨d, hd, rfl, hs⟩
    · obtain ⟨seen₁, s₂, hvisit, hrest⟩ := bind_eq_ok.1 h
      obtain rfl := CompilationState.after_nil_iff.1 hs
      exact .inr ⟨i, seen₁, s₂, hi, hns, hvisit, hrest⟩
  · intro h
    rcases h with ⟨d, hd, rfl, hs⟩ | ⟨i, seen₁, s₁, hi, hns, hvisit, hrest⟩
    · exact ⟨none, s', nextElement_eq_ok.2 (.inl ⟨rfl, d, hd, hs⟩), pure_eq_ok.2 ⟨rfl, rfl⟩⟩
    · have hmoved := CompilationState.after_nil_iff.2 (rfl : { s with cursor := i } = _)
      exact ⟨_, _, nextElement_eq_ok.2 (.inr ⟨i, hi, hns, rfl, hmoved⟩),
        bind_eq_ok.2 ⟨seen₁, s₁, hvisit, hrest⟩⟩

theorem VisitsBy.visitAmong_eq_ok (hv : VisitsBy visit view R A f) {past : List Element}
    {events : List Xml.Event} {s s' : CompilationState δ} (hR : past.Pairwise R)
    (hlen : s.cursor.pending.length ≤ events.length) :
    visitAmong grammar visit (view past) events s = (.ok seen, s') ↔
      ∃ es c, s.cursor.Visits es c ∧ (∀ e ∈ es, e.namespaceUri = some grammar.uri) ∧
        (∀ e ∈ es, A e) ∧ (past ++ es).Pairwise R ∧ seen = view (past ++ es) ∧
        s.After c (.concat (es.map f)) s' := by
  induction events generalizing past s with
  | nil =>
    have hp : s.cursor.pending = [] := List.eq_nil_of_length_eq_zero (Nat.le_zero.1 hlen)
    apply Iff.intro
    · intro h
      exact absurd h (visitAmong_nil_ne_ok hp)
    · intro h
      obtain ⟨es, c, hes, _⟩ := h
      have := hes.pending_lt
      rw [hp] at this
      exact absurd this (Nat.not_lt_zero _)
  | cons event events ih =>
    rw [List.length_cons] at hlen
    rw [visitAmong_cons_eq_ok]
    apply Iff.intro
    · intro h
      rcases h with ⟨d, hd, rfl, hs⟩ | ⟨i, seen₁, s₁, hi, hns, hvisit, hrest⟩
      · refine ⟨[], d, .finish hd, List.forall_mem_nil _, List.forall_mem_nil _, ?_, ?_, hs⟩
        · rwa [List.append_nil]
        · rw [List.append_nil]
      · obtain ⟨inner, o, hin, ⟨hcompat, ha⟩, rfl, hs₁⟩ :=
          (@hv past _ { s with cursor := i } _ _ (Cursor.distinct_of_next hi) rfl).1 hvisit
        have hlt := Cursor.next_pending_lt hi (by simp)
        have hlt' : o.pending.length < i.pending.length := hin.pending_lt
        obtain rfl := hs₁.cursor
        obtain ⟨es, c, hes, hnses, hAes, hRes, rfl, hs₂⟩ :=
          (ih (pairwise_concat hR hcompat) (by omega)).1 hrest
        rw [List.append_assoc] at hRes ⊢
        exact ⟨_, c, .child hi hin hes, List.forall_mem_cons.2 ⟨hns, hnses⟩,
          List.forall_mem_cons.2 ⟨ha, hAes⟩, hRes, rfl, (hs₁.moved s.cursor).trans hs₂⟩
    · intro h
      obtain ⟨es, c, hes, hnses, hAes, hRes, hseen, hs⟩ := h
      cases hes with
      | finish hd =>
        rw [hseen, List.append_nil]
        exact .inl ⟨c, hd, rfl, hs⟩
      | @child i o es _ _ inner hi hin hes =>
        obtain ⟨hns, hnses⟩ := List.forall_mem_cons.1 hnses
        obtain ⟨ha, hAes⟩ := List.forall_mem_cons.1 hAes
        rw [List.append_cons] at hRes hseen
        obtain ⟨hRe, _, _⟩ := List.pairwise_append.1 hRes
        have hcompat : ∀ c ∈ past, R c (i.element inner) := fun c hc =>
          (List.pairwise_append.1 hRe).2.2 c hc _ (List.mem_singleton_self _)
        have hs : s.After c (f (i.element inner) ++ .concat (es.map f)) s' := hs
        obtain ⟨s₁, hs₁, hs₂⟩ := (hs.moved i).between o
        have hlt := Cursor.next_pending_lt hi (by simp)
        have hlt' := hin.pending_lt
        have hvisit := (@hv past _ { s with cursor := i } _ _ (Cursor.distinct_of_next hi) rfl).2
          ⟨inner, o, hin, ⟨hcompat, ha⟩, rfl, hs₁⟩
        have hrest := (ih hRe (by rw [hs₁.cursor]; omega)).2
          ⟨es, c, hs₁.cursor ▸ hes, hnses, hAes, hRes, hseen, hs₂⟩
        exact .inr ⟨i, _, s₁, hi, hns, hvisit, hrest⟩

/-- The children of an element are visited where each of them is accepted behind those before it. -/
theorem VisitsBy.reads (hv : VisitsBy visit view R A f) :
    Reads (forChildren grammar (view []) visit) (·.Holds grammar R A) (fun e => view e.children)
      fun e => .concat (e.children.map f) := by
  intro s seen s' _
  rw [forChildren, getCursor_bind, hv.visitAmong_eq_ok .nil (Nat.le_refl _)]
  apply Iff.intro
  · intro h
    obtain ⟨es, c, hes, hns, hA, hR, hseen, hs⟩ := h
    obtain ⟨nodes, hn, hb, rfl⟩ := hes.encloses
    exact ⟨nodes, c, hn, ⟨hb, hns, hR, hA⟩, hseen, hs⟩
  · intro h
    obtain ⟨nodes, c, hn, ⟨hb, hns, hR, hA⟩, hseen, hs⟩ := h
    exact ⟨_, c, Cursor.visits_iff.2 ⟨nodes, hn, hb, rfl⟩, hns, hA, hR, hseen, hs⟩

end Children

end ManagementScript.Compilation
