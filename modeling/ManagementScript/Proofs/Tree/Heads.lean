import ManagementScript.Proofs.Tree.Balance

/-!
Elements as a cursor passes over them: whatever stands inside an element, skipping it leads to its end
tag, and so from the start tag of one child to that of the next.
-/

namespace ManagementScript.Cursor

/-- The cursors on the start tags of the children of an element, up to its end tag at `d`. -/
inductive Heads : Cursor → List Cursor → Cursor → Prop where
  | finish (h : c.next = (.ok .finish, d)) : Heads c [] d
  | child (h : c.next = (.ok .start, i)) (hi : i.skipElement = (.ok (), o)) (ho : Heads o is d) :
      Heads c (i :: is) d

/-- Skipping stops where it reaches the depth that is asked for. -/
theorem skipAmong_stop {c : Cursor} (h : c.depth ≤ target) (events : List Xml.Event) :
    skipAmong target c events = (.ok (), c.before events) := by
  cases events <;> exact if_pos h

theorem skipAmong_of_le {c : Cursor} (h : c.depth ≤ target) :
    skipAmong target c c.pending = (.ok (), c) := skipAmong_stop h c.pending

theorem skipAmong_nil {c : Cursor} (ht : target < c.depth) :
    skipAmong target c [] = (.error (c.before []).unexpectedEnd, c.before []) :=
  if_neg (Nat.not_le.2 ht)

theorem skipAmong_cons {c : Cursor} (ht : target < c.depth) :
    skipAmong target c (event :: events) = match event with
      | .start offset name tag scope =>
        match (c.before events).openElement offset name tag scope with
        | .error e => (.error e, c.before events)
        | .ok i => skipAmong target i events
      | .finish offset name =>
        match (c.before events).closeElement offset name with
        | .error e => (.error e, c.before events)
        | .ok d => skipAmong target d events
      | .text .. | .cdata .. => skipAmong target (c.before events) events
      | .fault offset defect => (.error ((c.before events).broken offset defect), c.before events) := by
  rw [skipAmong, if_neg (Nat.not_le.2 ht)]
  rfl

theorem skipAmong_start_eq_ok {c d : Cursor} (ht : target < c.depth) :
    skipAmong target c (.start offset name tag scope :: events) = (.ok (), d) ↔
      ∃ i, (c.before events).openElement offset name tag scope = .ok i ∧
        skipAmong target i events = (.ok (), d) := by
  rw [skipAmong_cons ht]
  cases hi : (c.before events).openElement offset name tag scope <;> simp [hi]

theorem skipAmong_finish_eq_ok {c d : Cursor} (ht : target < c.depth) :
    skipAmong target c (.finish offset name :: events) = (.ok (), d) ↔
      ∃ o, (c.before events).closeElement offset name = .ok o ∧
        skipAmong target o events = (.ok (), d) := by
  rw [skipAmong_cons ht]
  cases hd : (c.before events).closeElement offset name <;> simp [hd]

theorem skipAmong_pending_le {c d : Cursor} {ahead : List Xml.Event}
    (h : skipAmong target c ahead = (.ok (), d)) : d.pending.length ≤ ahead.length := by
  induction ahead generalizing c with
  | nil =>
    rcases Nat.lt_or_ge target c.depth with ht | hle
    · cases (skipAmong_nil ht).symm.trans h
    · cases (skipAmong_stop hle []).symm.trans h
      exact Nat.le_refl _
  | cons event ahead ih =>
    rcases Nat.lt_or_ge target c.depth with ht | hle
    · cases event with
      | start =>
        obtain ⟨_, _, h⟩ := (skipAmong_start_eq_ok ht).1 h
        exact Nat.le_succ_of_le (ih h)
      | finish =>
        obtain ⟨_, _, h⟩ := (skipAmong_finish_eq_ok ht).1 h
        exact Nat.le_succ_of_le (ih h)
      | text | cdata => exact Nat.le_succ_of_le (ih ((skipAmong_cons ht).symm.trans h))
      | fault => cases (skipAmong_cons ht).symm.trans h
    · cases (skipAmong_stop hle _).symm.trans h
      exact Nat.le_refl _

theorem skipElement_pending_le {c d : Cursor} (h : c.skipElement = (.ok (), d)) :
    d.pending.length ≤ c.pending.length :=
  skipAmong_pending_le h

theorem skipAmong_start {c i : Cursor} (hp : c.pending = .start offset name tag scope :: events)
    (hi : (c.before events).openElement offset name tag scope = .ok i) (ht : target < c.depth) :
    skipAmong target c c.pending = skipAmong target i i.pending := by
  rw [hp, (openElement_reads hi).1, skipAmong_cons ht]
  simp only [hi]
  rfl

theorem skipAmong_finish {c d : Cursor} (hp : c.pending = .finish offset name :: events)
    (hd : (c.before events).closeElement offset name = .ok d) (ht : target < c.depth) :
    skipAmong target c c.pending = skipAmong target d d.pending := by
  rw [hp, (closeElement_pending hd).1, skipAmong_cons ht]
  simp only [hd]
  rfl

/-- Where a tree is before the cursor, skipping goes over it as long as the cursor is deep enough. -/
theorem Encloses.skipAmong {c d : Cursor} (h : c.Encloses nodes d) (ht : target < c.depth) :
    skipAmong target c c.pending = skipAmong target d d.pending := by
  induction h with
  | finish hp hd => exact skipAmong_finish hp hd ht
  | text hp _ _ ih | cdata hp _ ih =>
    rw [hp, Cursor.skipAmong, if_neg (Nat.not_le.2 ht)]
    exact ih ht
  | element hp hi hin _ ihin ih =>
    have hopened := (openElement_moves hi).1
    rw [skipAmong_start hp hi ht, ihin, ih]
    · rw [depth, hin.moves.1, hopened]
      exact ht
    · rw [depth, hopened]
      exact Nat.lt_succ_of_lt ht

/-- Skipping an element leads to the end tag that the tree before the cursor ends with. -/
theorem Encloses.skipElement {c d : Cursor} (h : c.Encloses nodes d) (ho : c.opened ≠ []) :
    c.skipElement = (.ok (), d) := by
  have hopen : 0 < c.depth := List.length_pos_iff.2 ho
  have hclosed : d.depth ≤ c.depth - 1 := by
    rw [depth, h.moves.1, List.length_tail]
    exact Nat.le_refl _
  rw [Cursor.skipElement, h.skipAmong (by omega)]
  exact skipAmong_of_le hclosed

end ManagementScript.Cursor
