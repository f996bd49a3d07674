import ManagementScript.Proofs.Compilation.Consumption
import ManagementScript.Proofs.Tree.Intrusion

/-!
A compilation that comes upon something that is not of the grammar refuses it, and up to there it goes
on as it does without it.
-/

namespace ManagementScript

/-- The document has a construct that the grammar does not have, or passes a limit of the reader. -/
def CompilationError.IsRefusal (e : CompilationError) : Prop :=
  e.kind = .unexpectedConstruct ∨ ∃ r, e = .reader r ∧ r.IsLimit

theorem CompilationError.isRefusal_limit {r : ReadError} (h : r.IsLimit) :
    (CompilationError.ofRead r).IsRefusal := by
  cases r with
  | malformed | strayContent | unexpectedEnd => cases h
  | nestingTooDeep | tooManyAttributes => exact .inr ⟨_, rfl, h⟩

namespace Compilation

variable {δ α β σ : Type} {grammar : GrammarNamespace}

/-- The states differ in what they read, which is spoiled on the right, and not in what is done so
far. -/
structure Alike (grammar : GrammarNamespace) (n : Nat) (s t : CompilationState δ) : Prop where
  script : s.script = t.script
  attributes : t.cursor.attributes = s.cursor.attributes
  spoiled : Spoiled grammar n s.cursor.ahead t.cursor.ahead

/-- The outcome of a compilation that, without what spoils the document, gives `a` and leaves `s`. -/
inductive Fares (grammar : GrammarNamespace) (n : Nat) (a : α) (s : CompilationState δ) :
    Except CompilationError α × CompilationState δ → Prop where
  | ok (h : Alike grammar n s t) : Fares grammar n a s (.ok a, t)
  | error (he : e.IsRefusal) : Fares grammar n a s (.error e, t)

theorem Fares.bind {m : Compilation δ α} {g : α → Compilation δ β} {s s' t : CompilationState δ}
    (h : Fares grammar n a s (m t))
    (hg : ∀ t', m t = (.ok a, t') → Alike grammar n s t' → Fares grammar n b s' (g a t')) :
    Fares grammar n b s' ((m >>= g) t) := by
  rw [bind_apply]
  generalize hm : m t = outcome at h
  cases h with
  | ok h => exact hg _ hm h
  | error he => exact .error he

theorem Fares.bind_error {m : Compilation δ α} {g : α → Compilation δ β} {s' t t' : CompilationState δ}
    (h : m t = (.error e, t')) (he : e.IsRefusal) : Fares grammar n b s' ((m >>= g) t) := by
  rw [bind_apply, h]
  exact .error he

theorem Fares.stays {m : Compilation δ α} {s s' t : CompilationState δ} (h : Stays m)
    (hm : m s = (.ok a, s')) (hst : Alike grammar n s t) : Fares grammar n a s' (m t) := by
  obtain ⟨t', ht, hs', ht', hscript⟩ := h.eq_ok hst.script hm
  rw [ht]
  refine .ok ⟨hscript, ?_, ?_⟩
  · rw [hs', ht']
    exact hst.attributes
  · rw [hs', ht']
    exact hst.spoiled

/-! ### Unknown attributes -/

theorem readInto_unexpectedConstruct {t : CompilationState δ}
    (h : ∃ a ∈ t.cursor.attributes, Attribute.IsUnknown a) :
    ∃ e, readInto construct ps t = (.error e, t) ∧ e.kind = .unexpectedConstruct := by
  obtain ⟨a, ha, hunknown⟩ := h
  rw [readInto_apply]
  cases hm : t.cursor.attributes.mapM (known t.cursor) with
  | error e =>
    obtain ⟨a', _, ha'⟩ := mem_of_mapM_error hm
    exact ⟨e, rfl, known_eq_error ha' ▸ rfl⟩
  | ok attrs =>
    obtain ⟨hnone, hknown⟩ := ((mapM_eq_ok_iff fun _ _ => known_eq_ok_iff).1 hm).1 a ha
    rcases hunknown with huri | hname
    · rw [hnone] at huri
      cases huri
    · exact absurd hname hknown

theorem requireNoAttributes_unexpectedConstruct {t : CompilationState δ}
    (h : ∃ a ∈ t.cursor.attributes, Attribute.IsUnknown a) :
    ∃ e, requireNoAttributes t = (.error e, t) ∧ e.kind = .unexpectedConstruct := by
  obtain ⟨a, hmem, _⟩ := h
  rw [requireNoAttributes, getCursor_bind]
  cases ha : t.cursor.attributes with
  | nil =>
    rw [ha] at hmem
    cases hmem
  | cons a rest => exact ⟨_, rfl, rfl⟩

/-- A start tag with an attribute that the grammar does not have is refused. -/
theorem Scans.unexpectedConstruct {m : Compilation δ α} (h : Scans admits grammar .tag m)
    {s s' t : CompilationState δ} (hm : m s = (.ok a, s')) (hst : s.script = t.script)
    (ha : ∃ a ∈ t.cursor.attributes, Attribute.IsUnknown a) :
    ∃ e t', m t = (.error e, t') ∧ e.kind = .unexpectedConstruct := by
  generalize hstage : Stage.tag = stage at h
  -- What comes before the attributes are looked at does as it did on the tag without them.
  induction h generalizing s s' t with
  | noContent | text | children => cases hstage
  | bare =>
    obtain ⟨e, he, hkind⟩ := requireNoAttributes_unexpectedConstruct ha
    rw [bind_apply, he]
    exact ⟨e, t, rfl, hkind⟩
  | tagged =>
    obtain ⟨e, he, hkind⟩ := readInto_unexpectedConstruct ha
    rw [bind_apply, he]
    exact ⟨e, t, rfl, hkind⟩
  | refuse h =>
    obtain ⟨e, s₁, he, -⟩ := h s
    rw [he] at hm
    cases hm
  | isolated _ ih =>
    obtain ⟨hinner, -⟩ := isolated_eq_ok.1 hm
    obtain ⟨e, t', he, hkind⟩ := @ih _ _ _ { t with script := .empty } hinner rfl ha hstage
    simp only [Compilation.isolated, he]
    exact ⟨e, _, rfl, hkind⟩
  | before h _ ih =>
    obtain ⟨a, s₁, hfirst, hrest⟩ := bind_eq_ok.1 hm
    obtain ⟨t₁, ht, -, hcursor, hscript⟩ := h.eq_ok hst hfirst
    rw [bind_apply, ht]
    exact ih a hrest hscript (hcursor ▸ ha) hstage
  | after _ _ ih =>
    obtain ⟨a, s₁, hfirst, -⟩ := bind_eq_ok.1 hm
    obtain ⟨e, t', he, hkind⟩ := ih hfirst hst ha hstage
    rw [bind_apply, he]
    exact ⟨e, t', rfl, hkind⟩

/-! ### Unknown children -/

/-- A move inside an element is refused, or it leads where the cursor gets to. -/
theorem nextInside_meets {s s' t : CompilationState δ} (h : nextInside s = (.ok tag, s'))
    (hst : Alike grammar n s t) : s'.script = t.script ∧
    ((∃ e t', nextInside t = (.error e, t') ∧ e.IsRefusal) ∨
      ∃ tag' i, nextInside t = (.ok tag', { t with cursor := i }) ∧
        Cursor.Meets grammar n s'.cursor tag (.ok tag', i)) := by
  obtain ⟨-, c, hc, hs⟩ := nextInside_eq_ok.1 h
  obtain rfl := CompilationState.after_nil_iff.1 hs
  refine ⟨hst.script, ?_⟩
  have hmeets := Cursor.meets_next hst.spoiled hc
  have hmoved {tag' : Tag} {i : Cursor} (htag : tag' ≠ .endOfDocument)
      (hi : t.cursor.next = (.ok tag', i)) :
      nextInside t = (.ok tag', { t with cursor := i }) :=
    nextInside_eq_ok.2 ⟨htag, i, hi, CompilationState.after_nil_iff.2 rfl⟩
  generalize hi : t.cursor.next = moved at hmeets
  cases hmeets with
  | limit he => exact .inl ⟨_, _, nextInside_of_error hi, CompilationError.isRefusal_limit he⟩
  | stray => exact .inl ⟨_, _, nextInside_of_error hi, .inl rfl⟩
  | foreign hforeign => exact .inr ⟨.start, _, hmoved (by simp) hi, .foreign hforeign⟩
  | tag huri hname ha => exact .inr ⟨.start, _, hmoved (by simp) hi, .tag huri hname ha⟩
  | start huri hname ha hahead =>
    exact .inr ⟨.start, _, hmoved (by simp) hi, .start huri hname ha hahead⟩
  | finish ha hahead => exact .inr ⟨.finish, _, hmoved (by simp) hi, .finish ha hahead⟩

theorem fares_requireNoContent {s s' t : CompilationState δ} (h : requireNoContent s = (.ok u, s'))
    (hst : Alike grammar n s t) : Fares grammar n u s' (requireNoContent t) := by
  obtain ⟨tag, s₁, hinside, hrest⟩ := bind_eq_ok.1 h
  obtain ⟨hscript, ⟨e, t', he, hrefusal⟩ | ⟨tag', i, hi, hmeets⟩⟩ := nextInside_meets hinside hst
  · exact .bind_error he hrefusal
  rw [requireNoContent, bind_apply, hi]
  cases hmeets with
  | foreign | tag | start => exact .error (.inl rfl)
  | finish ha hahead =>
    obtain ⟨rfl, rfl⟩ := pure_eq_ok.1 hrest
    exact .ok ⟨hscript, ha, hahead⟩

theorem fares_elementText {s s' t : CompilationState δ}
    (h : move Cursor.elementText s = (.ok text, s')) (hst : Alike grammar n s t) :
    Fares grammar n text s' (move Cursor.elementText t) := by
  obtain ⟨c, hc, hs⟩ := move_eq_ok.1 h
  obtain rfl := CompilationState.after_nil_iff.1 hs
  have htext (i : Cursor) : i.elementText = i.textBehind "" := rfl
  rw [htext] at hc
  rcases Cursor.meets_textBehind hst.spoiled hc with ⟨content, p, i, hi⟩ | ⟨i, hi, ha, hahead⟩
  · have hmove : move Cursor.elementText t =
        (.error (.ofRead (.stray content p)), { t with cursor := i }) := by
      rw [move, htext, hi]
    rw [hmove]
    exact .error (.inl rfl)
  · have hmove : move Cursor.elementText t = (.ok text, { t with cursor := i }) := by
      rw [move, htext, hi]
    rw [hmove]
    exact .ok ⟨hst.script, ha, hahead⟩

theorem nextElement_of_start {s s₁ : CompilationState δ}
    (h : nextInside s = (.ok .start, s₁)) (hn : s₁.cursor.namespaceUri = some grammar.uri) :
    nextElement grammar s = (.ok (some (.ofString s₁.cursor.localName)), s₁) := by
  rw [nextElement, bind_apply, h]
  exact bind_eq_ok.2 ⟨(), s₁, requireNamespace_eq_ok.2 ⟨hn, rfl⟩, rfl⟩

theorem nextElement_of_foreign {s s₁ : CompilationState δ} (h : nextInside s = (.ok .start, s₁))
    (hforeign : (s₁.cursor.element []).IsForeign grammar) :
    (∃ e s', nextElement grammar s = (.error e, s') ∧ e.kind = .unexpectedConstruct) ∨
      nextElement grammar s = (.ok (some .unknown), s₁) := by
  by_cases hn : s₁.cursor.namespaceUri = some grammar.uri
  · have hkind : ElementName.ofString s₁.cursor.localName = .unknown :=
      hforeign.resolve_left (not_not_intro hn)
    exact .inr (hkind ▸ nextElement_of_start h hn)
  · have hrefused : ∃ e s', requireNamespace grammar s₁ = (.error e, s') ∧
        e.kind = .unexpectedConstruct := by
      rw [requireNamespace, getCursor_bind]
      simp only [beq_iff_eq, hn, ↓reduceIte]
      exact ⟨_, _, rfl, rfl⟩
    obtain ⟨e, s', he, hkind⟩ := hrefused
    refine .inl ⟨e, s', ?_, hkind⟩
    rw [nextElement, bind_apply, h]
    simp only [bind_apply, he]

/-- The next child is the same, or it is one that is refused when it is visited: it has an attribute
or a name that is not of the grammar. -/
theorem nextElement_meets {s s' t : CompilationState δ} (h : nextElement grammar s = (.ok r, s'))
    (hst : Alike grammar n s t) :
    Fares grammar n r s' (nextElement grammar t) ∨
      (∃ element t', r = some element ∧ nextElement grammar t = (.ok r, t') ∧
        s'.script = t'.script ∧ ∃ a ∈ t'.cursor.attributes, Attribute.IsUnknown a) ∨
      ∃ t', nextElement grammar t = (.ok (some .unknown), t') := by
  obtain ⟨tag, s₁, hinside, hrest⟩ := bind_eq_ok.1 h
  obtain ⟨hscript, ⟨e, t', he, hrefusal⟩ | ⟨tag', i, hi, hmeets⟩⟩ := nextInside_meets hinside hst
  · exact .inl (.bind_error he hrefusal)
  have hstart (htag : tag = .start) : s₁.cursor.namespaceUri = some grammar.uri ∧
      r = some (.ofString s₁.cursor.localName) ∧ s' = s₁ := by
    subst htag
    obtain ⟨_, s₂, hn, hr⟩ := bind_eq_ok.1 hrest
    obtain ⟨hn, rfl⟩ := requireNamespace_eq_ok.1 hn
    exact ⟨hn, pure_eq_ok.1 hr⟩
  cases hmeets with
  | foreign hforeign =>
    rcases nextElement_of_foreign hi hforeign with ⟨e, t', he, hkind⟩ | hunknown
    · rw [he]
      exact .inl (.error (.inl hkind))
    · exact .inr (.inr ⟨_, hunknown⟩)
  | tag huri hname ha =>
    obtain ⟨hn, rfl, rfl⟩ := hstart rfl
    have hnext := nextElement_of_start hi (huri.trans hn)
    rw [← hname]
    exact .inr (.inl ⟨_, _, rfl, hnext, hscript, ha⟩)
  | start huri hname ha hahead =>
    obtain ⟨hn, rfl, rfl⟩ := hstart rfl
    rw [nextElement_of_start hi (huri.trans hn), ← hname]
    exact .inl (.ok ⟨hscript, ha, hahead⟩)
  | finish ha hahead =>
    obtain ⟨rfl, rfl⟩ := pure_eq_ok.1 hrest
    rw [nextElement, bind_apply, hi]
    exact .inl (.ok ⟨hscript, ha, hahead⟩)

theorem Alike.pending_pos {s t : CompilationState δ} (h : Alike grammar n s t) :
    0 < t.cursor.pending.length := by
  have hlt := h.spoiled.length_pos
  rwa [Cursor.ahead, List.length_map] at hlt

/-- Children are visited alike up to one that is refused. -/
theorem fares_visitAmong {visit : σ → ElementName → Compilation δ σ}
    (hv : ∀ seen element, Scans admits grammar .tag (visit seen element))
    (hunknown : ∀ seen, RefusesConstruct (visit seen .unknown))
    (hfares : ∀ seen element seen' s s' t, visit seen element s = (.ok seen', s') →
      Alike grammar n s t → Fares grammar n seen' s' (visit seen element t))
    {before ahead : List Xml.Event} {s s' t : CompilationState δ}
    (hlen : s.cursor.pending.length ≤ before.length)
    (hlen' : t.cursor.pending.length ≤ ahead.length)
    (h : visitAmong grammar visit seen before s = (.ok seen', s')) (hst : Alike grammar n s t) :
    Fares grammar n seen' s' (visitAmong grammar visit seen ahead t) := by
  -- The documents differ in length, so each visit is bounded by what its own cursor has not read.
  induction before generalizing seen s t ahead with
  | nil => exact absurd h (visitAmong_nil_ne_ok (List.eq_nil_of_length_eq_zero (Nat.le_zero.1 hlen)))
  | cons event before ih =>
    cases ahead with
    | nil => exact absurd (Nat.lt_of_lt_of_le hst.pending_pos hlen') (Nat.lt_irrefl 0)
    | cons event' ahead =>
      obtain ⟨r, s₁, hnext, hrest⟩ := bind_eq_ok.1 h
      rcases nextElement_meets hnext hst with hsame | ⟨element, t₁, rfl, ht₁, hscript, ha⟩ | ⟨t₁, ht₁⟩
      · apply hsame.bind
        intro t₁ ht₁ hst₁
        cases r with
        | none =>
          obtain ⟨rfl, rfl⟩ := pure_eq_ok.1 hrest
          exact .ok hst₁
        | some element =>
          obtain ⟨seen₁, s₂, hvisit, hrest⟩ := bind_eq_ok.1 hrest
          apply (hfares _ _ _ _ _ _ hvisit hst₁).bind
          intro t₂ hvisit' hst₂
          have hlt := nextElement_pending_lt hnext
          have hlt' := nextElement_pending_lt ht₁
          obtain ⟨_, hn⟩ := (hv seen element).encloses hvisit
          obtain ⟨_, hn'⟩ := (hv seen element).encloses hvisit'
          have hlt₂ := hn.pending_lt
          have hlt₂' := hn'.pending_lt
          rw [List.length_cons] at hlen hlen'
          exact ih (by omega) (by omega) hrest hst₂
      · obtain ⟨seen₁, s₂, hvisit, -⟩ := bind_eq_ok.1 hrest
        obtain ⟨e, t₂, he, hkind⟩ := (hv seen element).unexpectedConstruct hvisit hscript ha
        rw [visitAmong, bind_apply, ht₁]
        exact .bind_error he (.inl hkind)
      · obtain ⟨e, t₂, he, hkind⟩ := hunknown seen t₁
        rw [visitAmong, bind_apply, ht₁]
        exact .bind_error he (.inl hkind)

/-! ### Whole elements -/

/-- What is read of a start tag depends on its attributes only. -/
theorem readInto_of_attributes {s s' t : CompilationState δ}
    (h : readInto construct ps s = (.ok r, s')) (ha : t.cursor.attributes = s.cursor.attributes) :
    s' = s ∧ readInto construct ps t = (.ok r, t) := by
  rw [readInto, getCursor_bind, bind_eq_ok] at h ⊢
  obtain ⟨attrs, s₁, hattrs, hread⟩ := h
  obtain ⟨hknown, rfl, rfl⟩ := (attributes_eq_ok []).1 hattrs
  obtain ⟨hread, rfl⟩ := check_eq_ok.1 hread
  refine ⟨rfl, _, t, (attributes_eq_ok []).2 ⟨ha ▸ hknown, rfl, rfl⟩, check_eq_ok.2 ⟨?_, rfl⟩⟩
  rw [Element.named, Cursor.element, ha]
  exact (construct.read_agrees ps _ _ _ _ _).eq_ok hread

theorem fares_isolated {m : Compilation δ α} {s s' t : CompilationState δ}
    (h : isolated m s = (.ok (a, script), s')) (hst : Alike grammar n s t)
    (hm : Fares grammar n a { s' with script := script } (m { t with script := .empty })) :
    Fares grammar n (a, script) s' (isolated m t) := by
  obtain ⟨-, hscript⟩ := isolated_eq_ok.1 h
  cases hinner : m { t with script := .empty } with
  | mk result t₁ =>
    rw [hinner] at hm
    cases hm with
    | ok h₁ =>
      have hok : isolated m t = (.ok (a, t₁.script), { t₁ with script := t.script }) :=
        isolated_eq_ok.2 ⟨hinner, rfl⟩
      rw [hok, ← h₁.script]
      exact .ok ⟨hscript.trans hst.script, h₁.attributes, h₁.spoiled⟩
    | error he =>
      simp only [isolated, hinner]
      exact .error he

/-- A compilation of an element fares alike on a spoiled document: what it comes upon in there, it
refuses. -/
theorem Scans.fares {m : Compilation δ α} (h : Scans admits grammar stage m) {s s' t : CompilationState δ}
    (hm : m s = (.ok a, s')) (hst : Alike grammar n s t) : Fares grammar n a s' (m t) := by
  induction h generalizing s s' t with
  | noContent => exact fares_requireNoContent hm hst
  | text => exact fares_elementText hm hst
  | children h hunknown ih =>
    rw [forChildren, getCursor_bind] at hm ⊢
    exact fares_visitAmong h hunknown (fun seen element _ _ _ _ => ih seen element)
      (Nat.le_refl _) (Nat.le_refl _) hm hst
  | bare _ ih =>
    obtain ⟨u, s₁, hnone, hrest⟩ := bind_eq_ok.1 hm
    obtain ⟨hs, rfl⟩ := requireNoAttributes_eq_ok.1 hnone
    have hnone' : requireNoAttributes t = (.ok u, t) :=
      requireNoAttributes_eq_ok.2 ⟨hst.attributes.trans hs, rfl⟩
    rw [bind_apply, hnone']
    exact ih hrest hst
  | tagged _ _ ih =>
    obtain ⟨r, s₁, hr, hrest⟩ := bind_eq_ok.1 hm
    obtain ⟨rfl, hr'⟩ := readInto_of_attributes hr hst.attributes
    rw [bind_apply, hr']
    exact ih r hrest hst
  | refuse h =>
    obtain ⟨e, s₁, he, -⟩ := h s
    rw [he] at hm
    cases hm
  | isolated _ ih =>
    have hinner := (isolated_eq_ok.1 hm).1
    exact fares_isolated hm hst (ih hinner ⟨rfl, hst.attributes, hst.spoiled⟩)
  | before h _ ih =>
    obtain ⟨a, s₁, hfirst, hrest⟩ := bind_eq_ok.1 hm
    apply (Fares.stays h hfirst hst).bind
    intro t₁ _ hst₁
    exact ih a hrest hst₁
  | after _ hg ih =>
    obtain ⟨a, s₁, hfirst, hrest⟩ := bind_eq_ok.1 hm
    apply (ih hfirst hst).bind
    intro t₁ _ hst₁
    exact .stays (hg a) hrest hst₁

end Compilation

end ManagementScript
