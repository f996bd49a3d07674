import ManagementScript.Proofs.Tree.Element

/-!
How a cursor meets the tree before it: its moves from tag to tag see the children of an element in
order, and its text is what stands between the tags.
-/

namespace ManagementScript.Cursor

/-! ### What a cursor encloses -/

theorem Encloses.pending_lt {c d : Cursor} (h : c.Encloses nodes d) :
    d.pending.length < c.pending.length := by
  induction h with
  | finish hp hd =>
    rw [hp, (closeElement_pending hd).1]
    exact Nat.lt_succ_self _
  | text hp _ _ ih | cdata hp _ ih =>
    rw [hp]
    exact Nat.lt_succ_of_lt ih
  | element hp hi _ _ ihin ih =>
    rw [(openElement_reads hi).1] at ihin
    rw [hp]
    exact Nat.lt_succ_of_lt (Nat.lt_trans ih ihin)

/-- What stands before a cursor can be read in one way only. -/
theorem Encloses.unique {c d d' : Cursor} (h : c.Encloses nodes d) (h' : c.Encloses nodes' d') :
    nodes = nodes' ∧ d = d' := by
  induction h generalizing nodes' d' with
  | finish hp hd =>
    cases h' with
    | finish hp' hd' =>
      rw [hp] at hp'
      cases hp'
      rw [hd] at hd'
      cases hd'
      exact ⟨rfl, rfl⟩
    | text hp' | cdata hp' | element hp' => rw [hp] at hp'; cases hp'
  | text hp ht _ ih =>
    cases h' with
    | text hp' ht' h' =>
      rw [hp] at hp'
      cases hp'
      rw [ht] at ht'
      cases ht'
      obtain ⟨rfl, rfl⟩ := ih h'
      exact ⟨rfl, rfl⟩
    | finish hp' | cdata hp' | element hp' => rw [hp] at hp'; cases hp'
  | cdata hp _ ih =>
    cases h' with
    | cdata hp' h' =>
      rw [hp] at hp'
      cases hp'
      obtain ⟨rfl, rfl⟩ := ih h'
      exact ⟨rfl, rfl⟩
    | finish hp' | text hp' | element hp' => rw [hp] at hp'; cases hp'
  | element hp hi _ _ ihin ih =>
    cases h' with
    | element hp' hi' hin' h' =>
      rw [hp] at hp'
      cases hp'
      rw [hi] at hi'
      cases hi'
      obtain ⟨rfl, rfl⟩ := ihin hin'
      obtain ⟨rfl, rfl⟩ := ih h'
      exact ⟨rfl, rfl⟩
    | finish hp' | text hp' | cdata hp' => rw [hp] at hp'; cases hp'

theorem Spans.unique {c d d' : Cursor} (h : c.Spans e d) (h' : c.Spans e' d') :
    e = e' ∧ d = d' := by
  obtain ⟨hn, rfl⟩ := h.inside.unique h'.inside
  exact ⟨by rw [h.start, h'.start, hn], rfl⟩

/-! ### Moves from tag to tag -/

theorem stray?_eq_none_iff (c : Cursor) (offset : Nat) (content : String) :
    c.stray? offset content = none ↔ Text.trimmed content = "" := by
  simp [stray?, String.isEmpty_iff]

theorem next_text {c : Cursor} (hp : c.pending = .text offset raw :: events)
    (ht : c.readText offset raw = .ok content) (hb : Text.trimmed content = "") :
    c.next = (c.before events).next := by
  have hs := (stray?_eq_none_iff c offset content).2 hb
  simp only [next, hp, nextAmong, ht, hs]
  exact (nextAmong_before c _ events).symm

theorem next_cdata {c : Cursor} (hp : c.pending = .cdata offset content :: events)
    (hb : Text.trimmed (String.ofList content) = "") : c.next = (c.before events).next := by
  have hs := (stray?_eq_none_iff c offset (String.ofList content)).2 hb
  simp only [next, hp, nextAmong, hs]
  exact (nextAmong_before c _ events).symm

theorem next_stray_text {c : Cursor} (hp : c.pending = .text offset raw :: events)
    (ht : c.readText offset raw = .ok content) (hb : Text.trimmed content ≠ "") :
    c.next = (.error (.stray (Text.trimmed content) (c.lines.positionAt offset)),
      c.before events) := by
  simp only [next, hp, nextAmong, ht, stray?, String.isEmpty_iff, hb, ↓reduceIte]
  rfl

theorem next_stray_cdata {c : Cursor} (hp : c.pending = .cdata offset content :: events)
    (hb : Text.trimmed (String.ofList content) ≠ "") :
    c.next = (.error (.stray (Text.trimmed (String.ofList content)) (c.lines.positionAt offset)),
      c.before events) := by
  simp only [next, hp, nextAmong, stray?, String.isEmpty_iff, hb, ↓reduceIte]
  rfl

theorem next_finish {c d : Cursor} (hp : c.pending = .finish offset name :: events)
    (hd : (c.before events).closeElement offset name = .ok d) : c.next = (.ok .finish, d) := by
  simp only [next, hp, nextAmong]
  change Cursor.settle _ _ ((c.before events).closeElement offset name) = _
  rw [hd]
  rfl

theorem next_start {c i : Cursor} (hp : c.pending = .start offset name tag scope :: events)
    (hi : (c.before events).openElement offset name tag scope = .ok i) :
    c.next = (.ok .start, i) := by
  simp only [next, hp, nextAmong]
  change Cursor.settle _ _ ((c.before events).openElement offset name tag scope) = _
  rw [hi]
  rfl

theorem Visits.of_next {c c' : Cursor} (h : Visits c' es d) (he : c.next = c'.next) :
    Visits c es d := by
  cases h with
  | finish h => exact .finish (he.trans h)
  | child h hi ho => exact .child (he.trans h) hi ho

theorem Encloses.visits {c d : Cursor} (h : c.Encloses nodes d)
    (hb : ∀ t ∈ nodes.filterMap Node.text?, Text.trimmed t = "") :
    c.Visits (nodes.filterMap Node.element?) d := by
  induction h with
  | finish hp hd => exact .finish (next_finish hp hd)
  | text hp ht _ ih =>
    have ht' := hb _ (List.mem_cons_self ..)
    exact (ih fun t h => hb t (List.mem_cons_of_mem _ h)).of_next (next_text hp ht ht')
  | cdata hp _ ih =>
    have ht' := hb _ (List.mem_cons_self ..)
    exact (ih fun t h => hb t (List.mem_cons_of_mem _ h)).of_next (next_cdata hp ht')
  | element hp hi hin _ _ ih => exact .child (next_start hp hi) hin (ih hb)

/-- Where a tree is before the cursor, the next move is to one of its tags, unless text is in the way. -/
theorem Encloses.next_cases {c d : Cursor} (h : c.Encloses nodes d) :
    (∃ content p i, c.next = (.error (.stray content p), i)) ∨ c.next = (.ok .finish, d) ∨
      ∃ i inner o rest, c.next = (.ok .start, i) ∧ i.Encloses inner o ∧ o.Encloses rest d := by
  induction h with
  | finish hp hd => exact .inr (.inl (next_finish hp hd))
  | @text _ _ _ _ content _ _ hp ht _ ih =>
    by_cases hb : Text.trimmed content = ""
    · rwa [next_text hp ht hb]
    · exact .inl ⟨_, _, _, next_stray_text hp ht hb⟩
  | @cdata _ _ _ _ content _ hp _ ih =>
    by_cases hb : Text.trimmed (String.ofList content) = ""
    · rwa [next_cdata hp hb]
    · exact .inl ⟨_, _, _, next_stray_cdata hp hb⟩
  | element hp hi hin h _ _ => exact .inr (.inr ⟨_, _, _, _, next_start hp hi, hin, h⟩)

/-- A move to a tag stops before its event, behind blank text. Whatever is read from there on is
read, with that text in front, from where the move began. -/
theorem next_stops {c i : Cursor} (h : c.next = (.ok tag, i)) (ht : tag ≠ .endOfDocument) :
    ∃ (blanks : List String) (s : Cursor), (∀ t ∈ blanks, Text.trimmed t = "") ∧
      s.Stops tag i ∧ s.pending.length ≤ c.pending.length ∧
      ∀ nodes d, s.Encloses nodes d → c.Encloses (blanks.map .text ++ nodes) d := by
  generalize hp : c.pending = events
  induction events generalizing c with
  | nil =>
    simp only [next, hp, nextAmong] at h
    split at h
    · cases h
      exact absurd rfl ht
    · cases h
  | cons event events ih =>
    cases event with
    | start offset name label scope =>
      simp only [next, hp, nextAmong, settle] at h
      split at h
      · next hi =>
        cases h
        exact ⟨[], c, List.forall_mem_nil _, .start hp hi, hp ▸ Nat.le_refl _, fun _ _ hn => hn⟩
      · cases h
    | finish offset name =>
      simp only [next, hp, nextAmong, settle] at h
      split at h
      · next hd =>
        cases h
        exact ⟨[], c, List.forall_mem_nil _, .finish hp hd, hp ▸ Nat.le_refl _, fun _ _ hn => hn⟩
      · cases h
    | text offset raw =>
      have h' := h
      simp only [next, hp, nextAmong] at h'
      split at h'
      · cases h'
      next content he =>
      split at h'
      · cases h'
      next hs =>
      have hb := (stray?_eq_none_iff c offset content).1 hs
      obtain ⟨blanks, s, hblank, hstop, hle, hnodes⟩ := ih (next_text hp he hb ▸ h) rfl
      exact ⟨content :: blanks, s, List.forall_mem_cons.2 ⟨hb, hblank⟩, hstop,
        Nat.le_succ_of_le hle, fun nodes d hn => .text hp he (hnodes nodes d hn)⟩
    | cdata offset content =>
      have h' := h
      simp only [next, hp, nextAmong] at h'
      split at h'
      · cases h'
      next hs =>
      have hb := (stray?_eq_none_iff c offset _).1 hs
      obtain ⟨blanks, s, hblank, hstop, hle, hnodes⟩ := ih (next_cdata hp hb ▸ h) rfl
      exact ⟨String.ofList content :: blanks, s, List.forall_mem_cons.2 ⟨hb, hblank⟩, hstop,
        Nat.le_succ_of_le hle, fun nodes d hn => .cdata hp (hnodes nodes d hn)⟩
    | fault offset defect =>
      simp only [next, hp, nextAmong] at h
      cases h

theorem Stops.pending_lt {s i : Cursor} (h : s.Stops tag i) :
    i.pending.length < s.pending.length := by
  cases h with
  | start hp hi =>
    rw [hp, (openElement_reads hi).1]
    exact Nat.lt_succ_self _
  | finish hp hd =>
    rw [hp, (closeElement_pending hd).1]
    exact Nat.lt_succ_self _

theorem next_pending_lt {c i : Cursor} (h : c.next = (.ok tag, i)) (ht : tag ≠ .endOfDocument) :
    i.pending.length < c.pending.length := by
  obtain ⟨_, s, _, hstop, hle, _⟩ := next_stops h ht
  exact Nat.lt_of_lt_of_le hstop.pending_lt hle

theorem Visits.encloses {c d : Cursor} (h : c.Visits es d) :
    ∃ nodes, c.Encloses nodes d ∧ (c.element nodes).IsBlank ∧ (c.element nodes).children = es := by
  induction h with
  | finish h =>
    obtain ⟨blanks, s, hb, hstop, _, hnodes⟩ := next_stops h (by simp)
    cases hstop with
    | finish hp hd =>
      refine ⟨_, hnodes _ _ (.finish hp hd), fun t ht => hb t ?_, ?_⟩
      · simpa [Element.texts, element, Function.comp_def] using ht
      · simp [Element.children, element, Function.comp_def]
  | child h hin _ ih =>
    obtain ⟨blanks, s, hb, hstop, _, hnodes⟩ := next_stops h (by simp)
    obtain ⟨nodes, hn, hblank, rfl⟩ := ih
    cases hstop with
    | start hp hi =>
      refine ⟨_, hnodes _ _ (.element hp hi hin hn), fun t ht => ?_, ?_⟩
      · simp only [Element.texts, element, List.filterMap_append, List.mem_append] at ht
        rcases ht with ht | ht
        · exact hb t (by simpa [Function.comp_def] using ht)
        · exact hblank t (by simpa [Element.texts, element] using ht)
      · simp [Element.children, element, Function.comp_def]

theorem Visits.pending_lt {c d : Cursor} (h : c.Visits es d) : d.pending.length < c.pending.length := by
  obtain ⟨nodes, hn, _, _⟩ := h.encloses
  exact hn.pending_lt

/-- The children met from tag to tag are those of the tree, where only white space is between them. -/
theorem visits_iff {c d : Cursor} : c.Visits es d ↔
    ∃ nodes, c.Encloses nodes d ∧ (c.element nodes).IsBlank ∧ (c.element nodes).children = es := by
  apply Iff.intro
  · exact Visits.encloses
  · intro h
    obtain ⟨nodes, h, hb, rfl⟩ := h
    exact h.visits hb

/-! ### The text of an element -/

theorem Encloses.textAmong {c d : Cursor} (h : c.Encloses nodes d)
    (hn : nodes.filterMap Node.element? = []) (text : String) :
    c.textAmong text c.pending = (.ok (text ++ String.join (nodes.filterMap Node.text?)), d) := by
  induction h generalizing text with
  | finish hp hd =>
    rw [hp]
    simp only [Cursor.textAmong]
    change Cursor.settle _ _ ((Cursor.before _ _).closeElement _ _) = _
    rw [hd]
    simp [settle]
  | text hp ht _ ih =>
    rw [hp]
    simp only [Cursor.textAmong, ht]
    rw [← textAmong_before]
    exact (ih hn _).trans (by simp [String.append_assoc])
  | cdata hp _ ih =>
    rw [hp]
    simp only [Cursor.textAmong]
    rw [← textAmong_before]
    exact (ih hn _).trans (by simp [String.append_assoc])
  | element => simp at hn

/-- Where a tree is before the cursor, its text is read unless a child is in the way. -/
theorem Encloses.elementText_cases {c d : Cursor} (h : c.Encloses nodes d) :
    (∃ content p i, c.elementText = (.error (.stray content p), i)) ∨
      ∃ text, c.elementText = (.ok text, d) := by
  have hread (text : String) :
      (∃ content p i, c.textAmong text c.pending = (.error (.stray content p), i)) ∨
        ∃ result, c.textAmong text c.pending = (.ok result, d) := by
    induction h generalizing text with
    | finish hp hd =>
      rw [hp]
      exact .inr ⟨text, congrArg (settle _ text) hd⟩
    | text hp ht _ ih =>
      rw [hp]
      simp only [Cursor.textAmong, ht]
      rw [← textAmong_before]
      exact ih _
    | cdata hp _ ih =>
      rw [hp]
      simp only [Cursor.textAmong]
      rw [← textAmong_before]
      exact ih _
    | element hp =>
      rw [hp]
      exact .inl ⟨_, _, _, rfl⟩
  exact hread ""

theorem encloses_of_textAmong {c d : Cursor}
    (h : c.textAmong text c.pending = (.ok result, d)) :
    ∃ nodes, c.Encloses nodes d ∧ nodes.filterMap Node.element? = [] := by
  generalize hp : c.pending = events at h
  induction events generalizing c text with
  | nil =>
    simp only [Cursor.textAmong] at h
    cases h
  | cons event events ih =>
    cases event with
    | start offset name label scope =>
      simp only [Cursor.textAmong] at h
      cases h
    | finish offset name =>
      simp only [Cursor.textAmong, settle] at h
      split at h
      · next hd =>
        cases h
        exact ⟨[], .finish hp hd, rfl⟩
      · cases h
    | text offset raw =>
      simp only [Cursor.textAmong] at h
      split at h
      · cases h
      next content ht =>
      rw [← textAmong_before c events] at h
      obtain ⟨nodes, hn, he⟩ := ih rfl h
      exact ⟨_, .text hp ht hn, by simpa using he⟩
    | cdata offset content =>
      simp only [Cursor.textAmong] at h
      rw [← textAmong_before c events] at h
      obtain ⟨nodes, hn, he⟩ := ih rfl h
      exact ⟨_, .cdata hp hn, by simpa using he⟩
    | fault offset defect =>
      simp only [Cursor.textAmong] at h
      cases h

/-- The text of an element can be read where no child stands inside. -/
theorem elementText_eq_ok_iff {c d : Cursor} : c.elementText = (.ok text, d) ↔
    ∃ nodes, c.Encloses nodes d ∧ (c.element nodes).children = [] ∧
      text = (c.element nodes).text := by
  apply Iff.intro
  · intro h
    obtain ⟨nodes, hn, he⟩ := encloses_of_textAmong h
    have ht := hn.textAmong he ""
    rw [elementText] at h
    rw [h] at ht
    cases ht
    exact ⟨nodes, hn, he, by simp [Element.text, Element.texts, element]⟩
  · intro h
    obtain ⟨nodes, hn, he, rfl⟩ := h
    exact (hn.textAmong he "").trans (by simp [Element.text, Element.texts, element])

end ManagementScript.Cursor
