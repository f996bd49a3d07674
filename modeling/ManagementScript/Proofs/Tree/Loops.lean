import ManagementScript.Proofs.Tree.Steps
import ManagementScript.Proofs.Tree.Passage
import ManagementScript.Proofs.Tree.Tokens

/-!
The loops of a cursor come to an end. Each of them is told as one step that is repeated without a bound; a
step that does not end its loop has read an event. Tags are counted: a piece of markup, which needs a `<`,
gives at most two of them.
-/

namespace ManagementScript

/-- A step that gives what the next one starts with, or else a result or an error, is repeated this many
times until it gives the last. -/
inductive Iterates {ε S α β : Type} (step : α → S → Except ε (α ⊕ β) × S) :
    Nat → α → S → Except ε β × S → Prop where
  | failed (h : step a s = (.error e, s')) : Iterates step 1 a s (.error e, s')
  | done (h : step a s = (.ok (.inr b), s')) : Iterates step 1 a s (.ok b, s')
  | again (h : step a s = (.ok (.inl a'), s₁)) (hrest : Iterates step k a' s₁ last) :
      Iterates step (k + 1) a s last

namespace Iterates

variable {ε S α β : Type} {step : α → S → Except ε (α ⊕ β) × S}

/-- What the first step gives, and then `loop` where it gives no result. -/
def unroll (step : α → S → Except ε (α ⊕ β) × S) (loop : α → S → Except ε β × S) (a : α) (s : S) :
    Except ε β × S :=
  match step a s with
  | (.ok (.inl a'), s') => loop a' s'
  | (.ok (.inr b), s') => (.ok b, s')
  | (.error e, s') => (.error e, s')

/-- A loop that can be unrolled ends, if each step that does not end it leaves less to do. -/
theorem of_unroll (loop : α → S → Except ε β × S) (left : S → Nat)
    (hloop : ∀ a s, loop a s = unroll step loop a s)
    (hleft : ∀ a s a' s', step a s = (.ok (.inl a'), s') → left s' < left s) (a : α) (s : S) :
    ∃ k ≤ left s + 1, Iterates step k a s (loop a s) := by
  rw [hloop, unroll]
  split
  · next a' s' h =>
    have hless := hleft a s a' s' h
    obtain ⟨k, hk, hrest⟩ := of_unroll loop left hloop hleft a' s'
    exact ⟨k + 1, by omega, .again h hrest⟩
  · next h => exact ⟨1, Nat.le_add_left .., .done h⟩
  · next h => exact ⟨1, Nat.le_add_left .., .failed h⟩
termination_by left s

/-- A loop that counts down a list has one that is long enough, if each step that does not end it leaves
less to read. -/
theorem of_countdown {γ : Type} (loop : List γ → α → S → Except ε β × S) (size left : S → Nat)
    (hcons : ∀ x ahead a s, loop (x :: ahead) a s = unroll step (loop ahead) a s)
    (hnil : ∀ a s, size s = 0 → loop [] a s = unroll step (loop []) a s)
    (hless : ∀ a s a' s', step a s = (.ok (.inl a'), s') → size s' < size s ∧ left s' < left s)
    {ahead : List γ} {s : S} (hsize : size s ≤ ahead.length) (a : α) :
    ∃ k ≤ left s + 1, Iterates step k a s (loop ahead a s) := by
  induction ahead generalizing a s with
  | nil =>
    have hzero : size s = 0 := Nat.eq_zero_of_le_zero hsize
    rw [hnil a s hzero, unroll]
    split
    · next a' s' h => exact absurd (hzero ▸ (hless a s a' s' h).1) (Nat.not_lt_zero _)
    · next h => exact ⟨1, Nat.le_add_left .., .done h⟩
    · next h => exact ⟨1, Nat.le_add_left .., .failed h⟩
  | cons x ahead ih =>
    rw [hcons, unroll]
    split
    · next a' s' h =>
      obtain ⟨hread, hleft⟩ := hless a s a' s' h
      rw [List.length_cons] at hsize
      obtain ⟨k, hk, hrest⟩ := ih (Nat.le_of_lt_succ (Nat.lt_of_lt_of_le hread hsize)) a'
      exact ⟨k + 1, by omega, .again h hrest⟩
    · next h => exact ⟨1, Nat.le_add_left .., .done h⟩
    · next h => exact ⟨1, Nat.le_add_left .., .failed h⟩

end Iterates

namespace Xml

/-- A start tag or an end tag. -/
def Event.isTag (event : Event) : Bool := event.isStart || event.isFinish

theorem Event.isTag_unplaced (event : Event) : event.unplaced.isTag = event.isTag := by
  cases event <;> rfl

theorem countP_find_le (state : ScanState) (p : Piece) : (state.find p).2.countP Event.isTag ≤ 2 := by
  have hlength : (state.find p).2.length ≤ 2 := by
    cases p with
    | startTag tag empty => cases empty <;> simp [ScanState.find, ScanState.read]
    | aside | namelessDoctype | cdata | endTag => simp [ScanState.find, ScanState.read]
  exact List.countP_le_length.trans hlength

/-- What is read has at most two tags for each `<`. -/
theorem countP_reading_le (state : ScanState) (cs : List Char) :
    (reading state cs).countP Event.isTag ≤ 2 * cs.count '<' := by
  match hcs : cs.dropWhile Text.isBlank with
  | [] => simp [reading_of_blank hcs]
  | c :: ahead =>
    obtain ⟨steps, hlen, hahead⟩ := length_pos_of_dropWhile hcs
    have hcount : (c :: ahead).count '<' ≤ cs.count '<' :=
      hcs ▸ (List.dropWhile_sublist _).count_le _
    by_cases hc : c = '<'
    · subst hc
      cases hm : markupOf ahead with
      | error defect =>
        rw [reading_defect hcs hm]
        exact Nat.zero_le _
      | ok found =>
        obtain ⟨p, rest⟩ := found
        have hsuffix := suffix_of_markupOf hm
        have hrest := countP_reading_le (state.unplaced.find p).1 rest
        have hfound := countP_find_le state.unplaced p
        have hless := hsuffix.sublist.count_le '<'
        rw [List.count_cons_self] at hcount
        rw [reading_markup hcs hm, List.countP_append]
        omega
    · have hrest := countP_reading_le state (ahead.dropWhile (· != '<'))
      have hless := (List.dropWhile_sublist (· != '<') (l := ahead)).count_le '<'
      rw [List.count_cons_of_ne hc] at hcount
      rw [reading_text hcs hc, List.countP_cons_of_neg (by simp [Event.isTag, Event.isStart, Event.isFinish])]
      omega
termination_by cs.length
decreasing_by
  · have := hsuffix.length_le
    omega
  · have := (List.dropWhile_sublist (· != '<') (l := ahead)).length_le
    omega

theorem count_withoutMark_le (c : Char) (cs : List Char) : (withoutMark cs).count c ≤ cs.count c := by
  unfold withoutMark
  split
  · exact (List.sublist_cons_self ..).count_le c
  · exact Nat.le_refl _

theorem countP_events_le (source : String) :
    (events source).countP Event.isTag ≤ 2 * source.toList.count '<' := by
  have hread := countP_reading_le .initial (withoutMark source.toList)
  have hmark := count_withoutMark_le '<' source.toList
  have hplaces : (Event.isTag ∘ Event.unplaced) = Event.isTag := funext Event.isTag_unplaced
  rw [← unplaced_events, List.countP_map, hplaces] at hread
  omega

end Xml

namespace Cursor

/-! ### Tags -/

/-- The number of tags that are not read yet. -/
def tagsAhead (c : Cursor) : Nat := c.pending.countP Xml.Event.isTag

theorem Passes.tagsAhead_le {c d : Cursor} (h : c.Passes d) : d.tagsAhead ≤ c.tagsAhead :=
  h.pending.sublist.countP_le

theorem Lands.tagsAhead_lt {c d : Cursor} (h : c.Lands events (.ok tag, d)) (ht : tag ≠ .endOfDocument) :
    d.tagsAhead < events.countP Xml.Event.isTag := by
  generalize hm : (Except.ok tag, d) = moved at h
  induction h with
  | ended =>
    cases hm
    exact absurd rfl ht
  | cut | stuck => cases hm
  | start hi =>
    cases hm
    rw [tagsAhead, (openElement_reads hi).1, List.countP_cons_of_pos rfl]
    exact Nat.lt_succ_self _
  | finish hd =>
    cases hm
    rw [tagsAhead, (closeElement_pending hd).1, List.countP_cons_of_pos rfl]
    exact Nat.lt_succ_self _
  | text _ ih | cdata _ ih =>
    rw [List.countP_cons_of_neg Bool.false_ne_true]
    exact ih hm

/-- A move onto a tag leaves fewer tags. -/
theorem next_tagsAhead_lt {c d : Cursor} (h : c.next = (.ok tag, d)) (ht : tag ≠ .endOfDocument) :
    d.tagsAhead < c.tagsAhead :=
  Lands.tagsAhead_lt (h ▸ c.next_lands) ht

/-- A move was made onto a start tag or an end tag. -/
def onTag : Except ReadError Tag → Bool
  | .ok .start | .ok .finish => true
  | .ok .endOfDocument | .error _ => false

/-- The results of the first moves to the next tag, one behind the other, also of those that fail. -/
def results : Nat → Cursor → List (Except ReadError Tag)
  | 0, _ => []
  | k + 1, c => c.next.1 :: results k c.next.2

theorem tagsAhead_of_onTag {c : Cursor} (h : onTag c.next.1 = true) : c.next.2.tagsAhead < c.tagsAhead := by
  generalize hn : c.next = moved at h
  obtain ⟨result, d⟩ := moved
  cases result with
  | ok tag => exact next_tagsAhead_lt hn (by rintro rfl; cases h)
  | error e => cases h

theorem countP_results_le (k : Nat) (c : Cursor) : (results k c).countP onTag ≤ c.tagsAhead := by
  induction k generalizing c with
  | zero => exact Nat.zero_le _
  | succ k ih =>
    have hrest := ih c.next.2
    rw [results, List.countP_cons]
    split
    · next htag =>
      have hless := tagsAhead_of_onTag htag
      omega
    · exact hrest.trans (passes_nextAmong c c.pending).tagsAhead_le

/-- One of the moves, behind no more tags than there are, meets the end of the document or fails. -/
theorem exists_results (c : Cursor) : ∃ k ≤ c.tagsAhead, ∃ last, onTag last = false ∧
    results (k + 1) c = results k c ++ [last] ∧ ∀ result ∈ results k c, onTag result = true := by
  cases htag : onTag c.next.1 with
  | false => exact ⟨0, Nat.zero_le _, c.next.1, htag, rfl, List.forall_mem_nil _⟩
  | true =>
    have hless := tagsAhead_of_onTag htag
    obtain ⟨k, hk, last, hlast, hresults, htags⟩ := exists_results c.next.2
    refine ⟨k + 1, by omega, last, hlast, ?_, List.forall_mem_cons.2 ⟨htag, htags⟩⟩
    exact congrArg (c.next.1 :: ·) hresults
termination_by c.tagsAhead

theorem Lands.pending_eq_nil {c d : Cursor} (h : c.Lands events (.ok .endOfDocument, d)) :
    d.pending = [] := by
  generalize hm : (Except.ok Tag.endOfDocument, d) = moved at h
  induction h with
  | ended =>
    cases hm
    rfl
  | cut | stuck | start | finish => cases hm
  | text _ ih | cdata _ ih => exact ih hm

/-- At the end of a document the cursor stays. -/
theorem next_of_ended {c d : Cursor} (h : c.next = (.ok .endOfDocument, d)) :
    d.next = (.ok .endOfDocument, d) := by
  have hp : d.pending = [] := Lands.pending_eq_nil (h ▸ c.next_lands)
  have ho : d.opened.isEmpty = true := List.isEmpty_iff.2 (opened_eq_nil_of_next h).2
  rw [next, hp, nextAmong, ← hp]
  exact if_pos ho

theorem results_of_ended {c d : Cursor} (h : c.next = (.ok .endOfDocument, d)) (k : Nat) :
    results k d = List.replicate k (.ok .endOfDocument) := by
  have hstays := next_of_ended h
  induction k with
  | zero => rfl
  | succ k ih => rw [results, hstays, ih, List.replicate_succ]

/-! ### Loops over events -/

/-- One event on the way to the next tag. -/
def nextStep (_ : Unit) (c : Cursor) : Moved (Unit ⊕ Tag) :=
  match c.pending with
  | [] => if c.opened.isEmpty then (.ok (.inr .endOfDocument), c) else (.error c.unexpectedEnd, c)
  | event :: events =>
    let c := c.before events
    match event with
    | .start offset name tag scope => c.settle (.inr .start) (c.openElement offset name tag scope)
    | .finish offset name => c.settle (.inr .finish) (c.closeElement offset name)
    | .text offset raw =>
      match c.readText offset raw with
      | .error e => (.error e, c)
      | .ok content =>
        match c.stray? offset content with
        | some e => (.error e, c)
        | none => (.ok (.inl ()), c)
    | .cdata offset content =>
      match c.stray? offset (String.ofList content) with
      | some e => (.error e, c)
      | none => (.ok (.inl ()), c)
    | .fault offset defect => (.error (c.broken offset defect), c)

/-- One event of the text of an element. -/
def textStep (text : String) (c : Cursor) : Moved (String ⊕ String) :=
  match c.pending with
  | [] => (.error c.unexpectedEnd, c)
  | event :: events =>
    let c := c.before events
    match event with
    | .start offset name _ _ => (.error (.stray s!"<{name.localName}>" (c.lines.positionAt offset)), c)
    | .finish offset name => c.settle (.inr text) (c.closeElement offset name)
    | .text offset raw =>
      match c.readText offset raw with
      | .error e => (.error e, c)
      | .ok content => (.ok (.inl (text ++ content)), c)
    | .cdata _ content => (.ok (.inl (text ++ String.ofList content)), c)
    | .fault offset defect => (.error (c.broken offset defect), c)

/-- One event of what is skipped. -/
def skipStep (target : Nat) (_ : Unit) (c : Cursor) : Moved (Unit ⊕ Unit) :=
  if c.depth ≤ target then (.ok (.inr ()), c)
  else
    match c.pending with
    | [] => (.error c.unexpectedEnd, c)
    | event :: events =>
      let c := c.before events
      match event with
      | .start offset name tag scope => c.settle (.inl ()) (c.openElement offset name tag scope)
      | .finish offset name => c.settle (.inl ()) (c.closeElement offset name)
      | .text .. | .cdata .. => (.ok (.inl ()), c)
      | .fault offset defect => (.error (c.broken offset defect), c)

theorem next_eq_unroll (c : Cursor) : c.next = Iterates.unroll nextStep (fun _ => next) () c := by
  cases hp : c.pending with
  | nil =>
    simp only [next, Iterates.unroll, nextStep, hp, nextAmong]
    rw [← hp]
    split <;> rfl
  | cons event events =>
    cases event with
    | start offset name tag scope =>
      simp only [next_eq_settle_start hp, Iterates.unroll, nextStep, hp]
      cases (c.before events).openElement offset name tag scope <;> rfl
    | finish offset name =>
      simp only [next_eq_settle_finish hp, Iterates.unroll, nextStep, hp]
      cases (c.before events).closeElement offset name <;> rfl
    | text offset raw =>
      simp only [next, Iterates.unroll, nextStep, hp, nextAmong, readText_before, stray?_before]
      cases c.readText offset raw with
      | error e => rfl
      | ok content =>
        simp only
        cases c.stray? offset content with
        | some e => rfl
        | none => exact (nextAmong_before c events events).symm
    | cdata offset content =>
      simp only [next, Iterates.unroll, nextStep, hp, nextAmong, stray?_before]
      cases c.stray? offset (String.ofList content) with
      | some e => rfl
      | none => exact (nextAmong_before c events events).symm
    | fault offset defect =>
      simp only [next, Iterates.unroll, nextStep, hp, nextAmong]
      rfl

theorem textBehind_eq_unroll (text : String) (c : Cursor) :
    c.textBehind text = Iterates.unroll textStep (fun text c => c.textBehind text) text c := by
  cases hp : c.pending with
  | nil =>
    simp only [textBehind, Iterates.unroll, textStep, hp, textAmong]
    rw [← hp]
  | cons event events =>
    cases event with
    | start offset name tag scope =>
      simp only [textBehind, Iterates.unroll, textStep, hp, textAmong]
      rfl
    | finish offset name =>
      simp only [textBehind_eq_settle hp, Iterates.unroll, textStep, hp]
      cases (c.before events).closeElement offset name <;> rfl
    | text offset raw =>
      simp only [textBehind, Iterates.unroll, textStep, hp, textAmong, readText_before]
      cases c.readText offset raw with
      | error e => rfl
      | ok content => exact (textAmong_before c events (text ++ content) events).symm
    | cdata offset content =>
      simp only [textBehind, Iterates.unroll, textStep, hp, textAmong]
      exact (textAmong_before c events _ events).symm
    | fault offset defect =>
      simp only [textBehind, Iterates.unroll, textStep, hp, textAmong]
      rfl

/-- Skips the rest of the elements that are open above `target`. -/
def skipTo (target : Nat) (c : Cursor) : Moved Unit := skipAmong target c c.pending

theorem skipTo_eq_unroll (target : Nat) (c : Cursor) :
    c.skipTo target = Iterates.unroll (skipStep target) (fun _ => skipTo target) () c := by
  by_cases hle : c.depth ≤ target
  · rw [skipTo, skipAmong_stop hle, Iterates.unroll, skipStep, if_pos hle]
    rfl
  have ht : target < c.depth := Nat.lt_of_not_le hle
  cases hp : c.pending with
  | nil =>
    simp only [skipTo, Iterates.unroll, skipStep, hp, skipAmong, if_neg hle]
    rw [← hp]
    exact if_neg hle
  | cons event events =>
    cases event with
    | start offset name tag scope =>
      simp only [skipTo, Iterates.unroll, skipStep, hp, if_neg hle, skipAmong_cons ht]
      cases hi : (c.before events).openElement offset name tag scope with
      | error e => rfl
      | ok i => exact congrArg (skipAmong target i) (openElement_reads hi).1.symm
    | finish offset name =>
      simp only [skipTo, Iterates.unroll, skipStep, hp, if_neg hle, skipAmong_cons ht]
      cases hd : (c.before events).closeElement offset name with
      | error e => rfl
      | ok d => exact congrArg (skipAmong target d) (closeElement_pending hd).1.symm
    | text | cdata | fault =>
      simp only [skipTo, Iterates.unroll, skipStep, hp, if_neg hle, skipAmong_cons ht, before]

/-! A step that does not end its loop has taken an event. -/

theorem settle_result_ne {c d : Cursor} {moved : Except ReadError Cursor} :
    c.settle (.inr b : α ⊕ β) moved ≠ (.ok (.inl a), d) := by
  cases moved <;> nofun

theorem nextStep_pending_lt {c c' : Cursor} (h : nextStep u c = (.ok (.inl u'), c')) :
    c'.pending.length < c.pending.length := by
  cases hp : c.pending with
  | nil =>
    simp only [nextStep, hp] at h
    split at h <;> cases h
  | cons event events =>
    cases event with
    | start | finish =>
      simp only [nextStep, hp] at h
      exact absurd h settle_result_ne
    | text offset raw =>
      simp only [nextStep, hp] at h
      split at h
      · cases h
      · split at h <;> cases h
        exact Nat.lt_succ_self _
    | cdata offset content =>
      simp only [nextStep, hp] at h
      split at h <;> cases h
      exact Nat.lt_succ_self _
    | fault =>
      simp only [nextStep, hp] at h
      cases h

theorem textStep_pending_lt {c c' : Cursor} (h : textStep text c = (.ok (.inl text'), c')) :
    c'.pending.length < c.pending.length := by
  cases hp : c.pending with
  | nil =>
    simp only [textStep, hp] at h
    cases h
  | cons event events =>
    cases event with
    | start | fault =>
      simp only [textStep, hp] at h
      cases h
    | finish =>
      simp only [textStep, hp] at h
      exact absurd h settle_result_ne
    | text offset raw =>
      simp only [textStep, hp] at h
      split at h <;> cases h
      exact Nat.lt_succ_self _
    | cdata offset content =>
      simp only [textStep, hp] at h
      cases h
      exact Nat.lt_succ_self _

theorem skipStep_pending_lt {c c' : Cursor} (h : skipStep target u c = (.ok (.inl u'), c')) :
    c'.pending.length < c.pending.length := by
  rw [skipStep] at h
  split at h
  · cases h
  cases hp : c.pending with
  | nil =>
    simp only [hp] at h
    cases h
  | cons event events =>
    cases event with
    | start offset name tag scope =>
      simp only [hp] at h
      rw [(openElement_reads (settle_eq_ok h)).1]
      exact Nat.lt_succ_self _
    | finish offset name =>
      simp only [hp] at h
      rw [(closeElement_pending (settle_eq_ok h)).1]
      exact Nat.lt_succ_self _
    | text | cdata =>
      simp only [hp] at h
      cases h
      exact Nat.lt_succ_self _
    | fault =>
      simp only [hp] at h
      cases h

theorem next_iterates (c : Cursor) : ∃ k ≤ c.pending.length + 1, Iterates nextStep k () c c.next :=
  Iterates.of_unroll (fun _ => next) (·.pending.length) (fun _ => next_eq_unroll)
    (fun _ _ _ _ => nextStep_pending_lt) () c

theorem elementText_iterates (c : Cursor) :
    ∃ k ≤ c.pending.length + 1, Iterates textStep k "" c c.elementText :=
  Iterates.of_unroll (fun text c => c.textBehind text) (·.pending.length) textBehind_eq_unroll
    (fun _ _ _ _ => textStep_pending_lt) "" c

theorem skipElement_iterates (c : Cursor) :
    ∃ k ≤ c.pending.length + 1, Iterates (skipStep (c.depth - 1)) k () c c.skipElement :=
  Iterates.of_unroll (fun _ => skipTo (c.depth - 1)) (·.pending.length) (fun _ => skipTo_eq_unroll _)
    (fun _ _ _ _ => skipStep_pending_lt) () c

end Cursor

end ManagementScript
