import ManagementScript.Proofs.Compilation.Translators
import ManagementScript.Proofs.Tree.Ending

/-!
What a compilation takes from a document. One that succeeds takes the element that the cursor is on,
up to the end tag that closes it and nothing behind it; and none of them meets the end of the document
as such, because it is only ever looked for inside an element.
-/

namespace ManagementScript.Compilation

variable {δ α β σ : Type} {grammar : GrammarNamespace}

theorem bind_eq_error {m : Compilation δ α} {f : α → Compilation δ β} {s s' : CompilationState δ} :
    (m >>= f) s = (.error e, s') ↔
      m s = (.error e, s') ∨ ∃ a s₁, m s = (.ok a, s₁) ∧ f a s₁ = (.error e, s') :=
  stateful_bind_eq_error

theorem isolated_eq_error {m : Compilation δ α} {s s' : CompilationState δ}
    (h : isolated m s = (.error e, s')) :
    ∃ t, m { s with script := .empty } = (.error e, t) ∧ t.cursor = s'.cursor := by
  simp only [isolated] at h
  split at h
  · cases h
  · next hm =>
    cases h
    exact ⟨_, hm, rfl⟩

/-! ### Success -/

theorem nextElement_pending_lt {s s' : CompilationState δ}
    (h : nextElement grammar s = (.ok r, s')) :
    s'.cursor.pending.length < s.cursor.pending.length := by
  rcases nextElement_eq_ok.1 h with ⟨_, d, hd, hs⟩ | ⟨i, hi, _, _, hs⟩
  · rw [hs.cursor]
    exact Cursor.next_pending_lt hd (by simp)
  · rw [hs.cursor]
    exact Cursor.next_pending_lt hi (by simp)

theorem visits_of_visitAmong {visit : σ → ElementName → Compilation δ σ} {ahead : List Xml.Event}
    (hv : ∀ seen element s seen' s', visit seen element s = (.ok seen', s') →
      ∃ nodes, s.cursor.Encloses nodes s'.cursor)
    {s s' : CompilationState δ} (hlen : s.cursor.pending.length ≤ ahead.length)
    (h : visitAmong grammar visit seen ahead s = (.ok seen', s')) :
    ∃ es, s.cursor.Visits es s'.cursor := by
  induction ahead generalizing seen s with
  | nil => exact absurd h (visitAmong_nil_ne_ok (List.eq_nil_of_length_eq_zero (Nat.le_zero.1 hlen)))
  | cons event ahead ih =>
    rcases visitAmong_cons_eq_ok.1 h with ⟨d, hd, _, hs⟩ | ⟨i, seen₁, s₁, hi, _, hvisit, hrest⟩
    · rw [hs.cursor]
      exact ⟨[], .finish hd⟩
    · obtain ⟨nodes, hn⟩ := hv _ _ _ _ _ hvisit
      have hlt := Cursor.next_pending_lt hi (by simp)
      have hlt' : s₁.cursor.pending.length < i.pending.length := hn.pending_lt
      rw [List.length_cons] at hlen
      obtain ⟨es, hes⟩ := ih (by omega) hrest
      exact ⟨_, .child hi hn hes⟩

/-- A compilation that succeeds is on the end tag of the element that it began on. -/
theorem Scans.encloses {m : Compilation δ α} (h : Scans admits grammar stage m) {s s' : CompilationState δ}
    (hm : m s = (.ok a, s')) : ∃ nodes, s.cursor.Encloses nodes s'.cursor := by
  induction h generalizing s s' with
  | noContent =>
    obtain ⟨i, hi, hs⟩ := requireNoContent_eq_ok.1 hm
    obtain ⟨nodes, hn, _⟩ := (Cursor.Visits.finish hi).encloses
    exact ⟨nodes, hs.cursor ▸ hn⟩
  | text =>
    obtain ⟨c, hc, hs⟩ := move_eq_ok.1 hm
    obtain ⟨nodes, hn, _⟩ := Cursor.elementText_eq_ok_iff.1 hc
    exact ⟨nodes, hs.cursor ▸ hn⟩
  | children h hunknown ih =>
    rw [forChildren, getCursor_bind] at hm
    obtain ⟨es, hes⟩ := visits_of_visitAmong (fun _ _ _ _ _ => ih _ _) (Nat.le_refl _) hm
    obtain ⟨nodes, hn, _⟩ := hes.encloses
    exact ⟨nodes, hn⟩
  | bare _ ih =>
    obtain ⟨_, s₁, hn, hrest⟩ := bind_eq_ok.1 hm
    obtain ⟨_, rfl⟩ := requireNoAttributes_eq_ok.1 hn
    exact ih hrest
  | tagged _ _ ih =>
    obtain ⟨r, s₁, hr, hrest⟩ := bind_eq_ok.1 hm
    obtain rfl := (congrArg Prod.snd hr).symm.trans (readInto_state _ _ s)
    exact ih r hrest
  | refuse h =>
    obtain ⟨e, s₁, he, _⟩ := h s
    rw [he] at hm
    cases hm
  | isolated _ ih =>
    have hinner := ih (isolated_eq_ok.1 hm).1
    exact hinner
  | before h _ ih =>
    obtain ⟨a, s₁, hfirst, hrest⟩ := bind_eq_ok.1 hm
    obtain ⟨nodes, hn⟩ := ih a hrest
    exact ⟨nodes, h.cursor hfirst ▸ hn⟩
  | after _ hg ih =>
    obtain ⟨a, s₁, hfirst, hrest⟩ := bind_eq_ok.1 hm
    obtain ⟨nodes, hn⟩ := ih hfirst
    exact ⟨nodes, (hg a).cursor hrest ▸ hn⟩

/-! ### Failure -/

theorem move_eq_error {step : Cursor → Cursor.Moved α} {s s' : CompilationState δ}
    (h : move step s = (.error e, s')) :
    ∃ r, step s.cursor = (.error r, s'.cursor) ∧ e = .ofRead r := by
  simp only [move] at h
  split at h
  · cases h
  · next r c hs =>
    cases h
    exact ⟨r, hs, rfl⟩

theorem nextInside_of_error {s : CompilationState δ} (h : s.cursor.next = (.error r, d)) :
    nextInside s = (.error (.ofRead r), { s with cursor := d }) := by
  have hmove : move Cursor.next s = (.error (.ofRead r), { s with cursor := d }) := by
    rw [move, h]
  rw [nextInside, bind_apply, hmove]

/-- Attributes are checked after the tag was read. -/
theorem requireNoAttributes_ne_reader {s s' : CompilationState δ}
    (h : requireNoAttributes s = (.error e, s')) (r : ReadError) : e ≠ .reader r := by
  rw [requireNoAttributes, getCursor_bind] at h
  cases ha : s.cursor.attributes with
  | nil =>
    rw [ha] at h
    cases h
  | cons a rest =>
    rw [ha] at h
    cases h
    simp

theorem readInto_ne_reader {s s' : CompilationState δ}
    (h : readInto construct ps s = (.error e, s')) (r : ReadError) : e ≠ .reader r := by
  rw [readInto_apply] at h
  rcases bind_eq_error_iff.1 (congrArg Prod.fst h) with h | ⟨attrs, _, h⟩
  · obtain ⟨a, _, ha⟩ := mem_of_mapM_error h
    rw [known_eq_error ha]
    simp
  · exact (construct.read_agrees ps attrs _ "" _ .unread).ne_reader h r

theorem endsEarly_nextInside {s s' : CompilationState δ} (ho : s.cursor.opened ≠ [])
    (h : nextInside s = (.error (.reader (.unexpectedEnd innermost q)), s')) :
    s.cursor.EndsEarly (.unexpectedEnd innermost q) s'.cursor := by
  rw [nextInside] at h
  rcases bind_eq_error.1 h with h | ⟨tag, s₁, hm, h⟩
  · obtain ⟨r, hr, he⟩ := move_eq_error h
    have hread : r = .unexpectedEnd innermost q := by
      cases r <;> cases he
      rfl
    rw [hread] at hr
    exact Cursor.endsEarly_next hr
  · obtain ⟨c, hc, _⟩ := move_eq_ok.1 hm
    cases tag with
    | endOfDocument => exact absurd (Cursor.opened_eq_nil_of_next hc).1 ho
    | start | finish => cases h

theorem endsEarly_nextElement {s s' : CompilationState δ} (ho : s.cursor.opened ≠ [])
    (h : nextElement grammar s = (.error (.reader (.unexpectedEnd innermost q)), s')) :
    s.cursor.EndsEarly (.unexpectedEnd innermost q) s'.cursor := by
  rw [nextElement] at h
  rcases bind_eq_error.1 h with h | ⟨tag, s₁, _, h⟩
  · exact endsEarly_nextInside ho h
  cases tag with
  | finish | endOfDocument => cases h
  | start =>
    rcases bind_eq_error.1 h with h | ⟨_, _, _, h⟩
    · rw [requireNamespace, getCursor_bind] at h
      split at h
      · cases h
      · cases h
    · cases h

theorem endsEarly_visitAmong {visit : σ → ElementName → Compilation δ σ} {ahead : List Xml.Event}
    (hv : ∀ seen element s seen' s', visit seen element s = (.ok seen', s') →
      ∃ nodes, s.cursor.Encloses nodes s'.cursor)
    (he : ∀ seen element s s', s.cursor.opened ≠ [] →
      visit seen element s = (.error (.reader (.unexpectedEnd innermost q)), s') →
        s.cursor.EndsEarly (.unexpectedEnd innermost q) s'.cursor)
    {s s' : CompilationState δ} (ho : s.cursor.opened ≠ [])
    (h : visitAmong grammar visit seen ahead s = (.error (.reader (.unexpectedEnd innermost q)), s')) :
    s.cursor.EndsEarly (.unexpectedEnd innermost q) s'.cursor := by
  induction ahead generalizing seen s with
  | nil =>
    rcases bind_eq_error.1 h with h | ⟨_, _, _, h⟩
    · rcases bind_eq_error.1 h with h | ⟨_, _, _, h⟩
      · exact endsEarly_nextElement ho h
      · cases h
    · cases h
  | cons event ahead ih =>
    rcases bind_eq_error.1 h with h | ⟨r, s₁, hn, h⟩
    · exact endsEarly_nextElement ho h
    rcases nextElement_eq_ok.1 hn with ⟨rfl, _⟩ | ⟨i, hi, _, rfl, hs⟩
    · cases h
    obtain rfl := hs.cursor
    obtain ⟨hopened, hlines⟩ := Cursor.next_start_moves hi
    have hdeeper : s.cursor.opened <:+ s₁.cursor.opened := hopened ▸ List.suffix_cons ..
    have hne : s₁.cursor.opened ≠ [] := by simp [hopened]
    rcases bind_eq_error.1 h with h | ⟨seen₁, s₂, hvisit, h⟩
    · exact (he _ _ _ _ hne h).of_inside hlines hdeeper
    · obtain ⟨nodes, hnodes⟩ := hv _ _ _ _ _ hvisit
      obtain ⟨hopened₂, hlines₂⟩ := hnodes.moves
      rw [hopened, List.tail_cons] at hopened₂
      exact (ih (hopened₂ ▸ ho) h).of_inside (hlines₂.trans hlines) (hopened₂ ▸ List.suffix_refl _)

/-- A compilation that is told of the end of the document is inside the element that it began on, or
inside one of those in it. -/
theorem Scans.endsEarly {m : Compilation δ α} (h : Scans admits grammar stage m) {s s' : CompilationState δ}
    (ho : s.cursor.opened ≠ []) (hm : m s = (.error (.reader (.unexpectedEnd innermost q)), s')) :
    s.cursor.EndsEarly (.unexpectedEnd innermost q) s'.cursor := by
  induction h generalizing s s' with
  | noContent =>
    rcases bind_eq_error.1 hm with h | ⟨tag, s₁, _, h⟩
    · exact endsEarly_nextInside ho h
    · cases tag <;> cases h
  | text =>
    obtain ⟨r, hr, he⟩ := move_eq_error hm
    have hread : r = .unexpectedEnd innermost q := by
      cases r <;> cases he
      rfl
    rw [hread] at hr
    exact Cursor.endsEarly_elementText hr
  | children h _ ih =>
    rw [forChildren, getCursor_bind] at hm
    exact endsEarly_visitAmong (fun seen element _ _ _ => (h seen element).encloses)
      (fun seen element _ _ => ih seen element) ho hm
  | bare _ ih =>
    rcases bind_eq_error.1 hm with hfirst | ⟨_, s₁, hfirst, hrest⟩
    · exact absurd rfl (requireNoAttributes_ne_reader hfirst _)
    · obtain ⟨_, rfl⟩ := requireNoAttributes_eq_ok.1 hfirst
      exact ih ho hrest
  | tagged _ _ ih =>
    rcases bind_eq_error.1 hm with hfirst | ⟨r, s₁, hfirst, hrest⟩
    · exact absurd rfl (readInto_ne_reader hfirst _)
    · obtain rfl := (congrArg Prod.snd hfirst).symm.trans (readInto_state _ _ s)
      exact ih r ho hrest
  | refuse h =>
    obtain ⟨e, s₁, he, hne⟩ := h s
    rw [he] at hm
    cases hm
    exact absurd rfl (hne _)
  | isolated _ ih =>
    obtain ⟨t, hinner, hc⟩ := isolated_eq_error hm
    have hends := @ih { s with script := .empty } t ho hinner
    exact hc ▸ hends
  | before h _ ih =>
    rcases bind_eq_error.1 hm with hfirst | ⟨a, s₁, hfirst, hrest⟩
    · exact absurd rfl (h.ne_reader hfirst _)
    · have hc := h.cursor hfirst
      rw [← hc] at ho ⊢
      exact ih a ho hrest
  | after _ hg ih =>
    rcases bind_eq_error.1 hm with hfirst | ⟨a, s₁, _, hrest⟩
    · exact ih ho hfirst
    · exact absurd rfl ((hg a).ne_reader hrest _)

/-! ### Documents that can be read -/

theorem nextInside_cases {s : CompilationState δ} (h : s.cursor.Encloses nodes d) :
    (∃ e s', nextInside s = (.error e, s') ∧ ∀ r, e ≠ .reader r) ∨
      nextInside s = (.ok .finish, { s with cursor := d }) ∨
      ∃ i innermost o rest, nextInside s = (.ok .start, { s with cursor := i }) ∧
        i.Encloses innermost o ∧ o.Encloses rest d := by
  have hmoved {tag : Tag} {i : Cursor} (htag : tag ≠ .endOfDocument)
      (hi : s.cursor.next = (.ok tag, i)) : nextInside s = (.ok tag, { s with cursor := i }) :=
    nextInside_eq_ok.2 ⟨htag, i, hi, CompilationState.after_nil_iff.2 rfl⟩
  rcases h.next_cases with ⟨content, p, i, hi⟩ | hd | ⟨i, innermost, o, rest, hi, hin, ho⟩
  · exact .inl ⟨_, _, nextInside_of_error hi, by simp [ReadError.stray, CompilationError.ofRead]⟩
  · exact .inr (.inl (hmoved (by simp) hd))
  · exact .inr (.inr ⟨i, innermost, o, rest, hmoved (by simp) hi, hin, ho⟩)

theorem nextElement_cases {s : CompilationState δ} (h : s.cursor.Encloses nodes d) :
    (∃ e s', nextElement grammar s = (.error e, s') ∧ ∀ r, e ≠ .reader r) ∨
      nextElement grammar s = (.ok none, { s with cursor := d }) ∨
      ∃ i innermost o rest element, nextElement grammar s = (.ok (some element), { s with cursor := i }) ∧
        i.Encloses innermost o ∧ o.Encloses rest d := by
  simp only [nextElement]
  rcases nextInside_cases h with ⟨e, s', he, hne⟩ | hd | ⟨i, innermost, o, rest, hi, hin, ho⟩
  · rw [bind_apply, he]
    exact .inl ⟨e, s', rfl, hne⟩
  · rw [bind_apply, hd]
    exact .inr (.inl rfl)
  · rw [bind_apply, hi]
    simp only [requireNamespace, bind_assoc, getCursor_bind]
    split
    · exact .inr (.inr ⟨i, innermost, o, rest, _, rfl, hin, ho⟩)
    · exact .inl ⟨_, _, rfl, by simp⟩

theorem visitAmong_ne_reader {visit : σ → ElementName → Compilation δ σ} {ahead : List Xml.Event}
    (hv : ∀ seen element s seen' s', visit seen element s = (.ok seen', s') →
      ∃ nodes, s.cursor.Encloses nodes s'.cursor)
    (hr : ∀ seen element s nodes d e s', s.cursor.Encloses nodes d →
      visit seen element s = (.error e, s') → e ≠ .reader r)
    {s s' : CompilationState δ} (hs : s.cursor.Encloses nodes d)
    (hlen : s.cursor.pending.length ≤ ahead.length)
    (h : visitAmong grammar visit seen ahead s = (.error e, s')) : e ≠ .reader r := by
  induction ahead generalizing seen s nodes with
  | nil =>
    have hlt := hs.pending_lt
    rw [List.length_nil] at hlen
    omega
  | cons event ahead ih =>
    rw [visitAmong, bind_apply] at h
    rcases nextElement_cases hs with ⟨e', s₁, he, hne⟩ | hd | ⟨i, innermost, o, rest, element, hi, hin, ho⟩
    · rw [he] at h
      cases h
      exact hne r
    · rw [hd] at h
      cases h
    · rw [hi] at h
      rcases bind_eq_error.1 h with h | ⟨seen₁, s₁, hvisit, h⟩
      · exact hr seen element _ innermost o _ _ hin h
      · obtain ⟨_, hn⟩ := hv _ _ _ _ _ hvisit
        obtain ⟨-, hcursor⟩ := hin.unique hn
        have hlt := nextElement_pending_lt hi
        have hlt₁ := hn.pending_lt
        rw [List.length_cons] at hlen
        exact ih (hcursor ▸ ho) (by omega) h

/-- Where a tree is before the cursor, no compilation of it fails because of what is read. -/
theorem Scans.ne_reader {m : Compilation δ α} (h : Scans admits grammar stage m) {s s' : CompilationState δ}
    (hs : s.cursor.Encloses nodes d) (hm : m s = (.error e, s')) (r : ReadError) :
    e ≠ .reader r := by
  induction h generalizing s s' nodes d e with
  | noContent =>
    rw [requireNoContent, bind_apply] at hm
    rcases nextInside_cases hs with ⟨e', s₁, he, hne⟩ | hd | ⟨i, _, _, _, hi, _, _⟩
    · rw [he] at hm
      cases hm
      exact hne r
    · rw [hd] at hm
      cases hm
    · rw [hi] at hm
      cases hm
      simp
  | text =>
    obtain ⟨r', hr, rfl⟩ := move_eq_error hm
    rcases hs.elementText_cases with ⟨content, p, i, hi⟩ | ⟨text, hd⟩
    · rw [hi] at hr
      cases hr
      simp [ReadError.stray, CompilationError.ofRead]
    · rw [hd] at hr
      cases hr
  | children h _ ih =>
    rw [forChildren, getCursor_bind] at hm
    exact visitAmong_ne_reader (fun seen element _ _ _ => (h seen element).encloses)
      (fun seen element _ _ _ _ _ => ih seen element) hs (Nat.le_refl _) hm
  | bare _ ih =>
    rcases bind_eq_error.1 hm with hfirst | ⟨_, s₁, hfirst, hrest⟩
    · exact requireNoAttributes_ne_reader hfirst r
    · obtain ⟨_, rfl⟩ := requireNoAttributes_eq_ok.1 hfirst
      exact ih hs hrest
  | tagged _ _ ih =>
    rcases bind_eq_error.1 hm with hfirst | ⟨reading, s₁, hfirst, hrest⟩
    · exact readInto_ne_reader hfirst r
    · obtain rfl := (congrArg Prod.snd hfirst).symm.trans (readInto_state _ _ s)
      exact ih reading hs hrest
  | refuse h =>
    obtain ⟨e', s₁, he, hne⟩ := h s
    rw [he] at hm
    cases hm
    exact hne r
  | isolated _ ih =>
    obtain ⟨t, hinner, -⟩ := isolated_eq_error hm
    have hs' : ({ s with script := .empty } : CompilationState δ).cursor.Encloses nodes d := hs
    exact ih hs' hinner
  | before h _ ih =>
    rcases bind_eq_error.1 hm with hfirst | ⟨a, s₁, hfirst, hrest⟩
    · exact h.ne_reader hfirst r
    · exact ih a (h.cursor hfirst ▸ hs) hrest
  | after _ hg ih =>
    rcases bind_eq_error.1 hm with hfirst | ⟨a, s₁, _, hrest⟩
    · exact ih hs hfirst
    · exact (hg a).ne_reader hrest r

end ManagementScript.Compilation
