import ManagementScript.Proofs.Tree.BlankRun
import ManagementScript.Proofs.Tree.Sections

/-!
What a cursor meets inside the root of a document, and inside the root of the text that is left when some
of the children are taken out: the same children but those, as long as they can all be skipped.
-/

namespace ManagementScript

/-- The text that is left goes on with the run, and with what comes to it. -/
theorem Xml.Omits.run_ahead {run : List Char} (h : Xml.Omits selects run es ts) :
    ∃ run' rest, ts = Xml.runEvents (run ++ run') ++ rest := by
  induction h with
  | run _ ih =>
    obtain ⟨run', rest, he⟩ := ih
    exact ⟨_, rest, by rw [he, List.append_assoc]⟩
  | omitted _ _ _ ih => exact ih
  | aside | cdata | selected | finish =>
    exact ⟨[], _, congrArg (Xml.runEvents · ++ _) (List.append_nil _).symm⟩

namespace Cursor

/-! ### Behind a run of character data -/

/-- Everything up to the end tag of the current element can be read, where the elements inside are
skipped. -/
inductive Skims : Cursor → Prop where
  | finish (hp : c.pending = .finish offset name :: events)
      (hd : (c.before events).closeElement offset name = .ok d) : Skims c
  | text (hp : c.pending = .text offset raw :: events) (ht : c.readText offset raw = .ok content)
      (h : Skims (c.before events)) : Skims c
  | cdata (hp : c.pending = .cdata offset content :: events) (h : Skims (c.before events)) : Skims c
  | element (hp : c.pending = .start offset name tag scope :: events)
      (hi : (c.before events).openElement offset name tag scope = .ok i)
      (hs : i.skipElement = (.ok (), o)) (h : Skims o) : Skims c

theorem skims_cdata_iff {c : Cursor} (hp : c.pending = .cdata offset content :: events) :
    c.Skims ↔ (c.before events).Skims := by
  apply Iff.intro
  · intro h
    cases h with
    | cdata hp' h =>
      rw [hp] at hp'
      cases hp'
      exact h
    | finish hp' | text hp' | element hp' =>
      rw [hp] at hp'
      cases hp'
  · exact .cdata hp

theorem skims_text_iff {c : Cursor} (hp : c.pending = .text offset raw :: events) :
    c.Skims ↔ (∃ out, Xml.Resolves raw out) ∧ (c.before events).Skims := by
  apply Iff.intro
  · intro h
    cases h with
    | text hp' ht h =>
      rw [hp] at hp'
      cases hp'
      exact ⟨⟨_, Xml.resolveReferences_eq_ok_iff.1 (readText_eq_ok.1 ht)⟩, h⟩
    | finish hp' | cdata hp' | element hp' =>
      rw [hp] at hp'
      cases hp'
  · intro h
    obtain ⟨⟨out, hr⟩, h⟩ := h
    have ht : Xml.resolveReferences raw = .ok (String.ofList out) :=
      Xml.resolveReferences_eq_ok_iff.2 (by simpa using hr)
    exact .text hp (readText_eq_ok.2 ht) h

theorem Skims.of_start {c : Cursor} (h : c.Skims)
    (hp : c.pending = .start offset name tag scope :: events) : ∃ i o,
    (c.before events).openElement offset name tag scope = .ok i ∧ i.skipElement = (.ok (), o) ∧
      o.Skims := by
  cases h with
  | element hp' hi hs h =>
    rw [hp] at hp'
    cases hp'
    exact ⟨_, _, hi, hs, h⟩
  | finish hp' | text hp' | cdata hp' =>
    rw [hp] at hp'
    cases hp'

/-- A run of character data is passed over, if it is blank; where it's not it is in the way. -/
theorem exists_behind_run {c : Cursor} (hm : c.marks = Xml.runEvents run ++ more) : ∃ events,
    (c.before events).marks = more ∧
      (c.Skims ↔ (∃ out, Xml.Resolves run out) ∧ (c.before events).Skims) ∧
      (Xml.IsBlankRun run → c.next = (c.before events).next) ∧
      ∀ tag d, c.next = (.ok tag, d) → Xml.IsBlankRun run := by
  match hblank : run.dropWhile Text.isBlank with
  | [] =>
    rw [Xml.runEvents_of_blank hblank] at hm
    have hb := Xml.isBlankRun_of_isBlank (List.dropWhile_eq_nil_iff.1 hblank)
    obtain ⟨out, hr, _⟩ := id hb
    exact ⟨c.pending, hm, ⟨fun h => ⟨⟨out, hr⟩, h⟩, fun h => h.2⟩, fun _ => rfl, fun _ _ _ => hb⟩
  | x :: raw =>
    rw [Xml.runEvents_of_ne_blank hblank] at hm
    obtain ⟨offset, events, hp, hmore⟩ := exists_pending hm
    refine ⟨events, hmore, ?_, fun hb => ?_, fun tag d h => ?_⟩
    · rw [skims_text_iff hp, Xml.resolves_trim_iff]
    · obtain ⟨content, ht, hb⟩ := Xml.isBlankRun_iff.1 (Xml.isBlankRun_trim_iff.2 hb)
      exact next_text hp (readText_eq_ok.2 ht) hb
    · exact Xml.isBlankRun_trim_iff.1 (Xml.isBlankRun_iff.2 (readText_of_next hp h))

/-- The markup behind a blank run is what is met next. -/
theorem exists_pending_behind_run {c : Cursor} (hm : c.marks = Xml.runEvents run ++ mark :: more)
    (hb : Xml.IsBlankRun run) : ∃ (b : Cursor) (offset : Nat) (events : List Xml.Event),
    c.next = b.next ∧ b.opened = c.opened ∧ b.pending = mark.placed offset :: events ∧
      (b.before events).marks = more := by
  obtain ⟨ahead, hmarks, _, hnext, _⟩ := exists_behind_run hm
  obtain ⟨offset, events, hp, hmore⟩ := exists_pending hmarks
  exact ⟨c.before ahead, offset, events, hnext hb, rfl, hp, hmore⟩

theorem Heads.of_next {c c' d : Cursor} (h : c'.Heads is d) (he : c.next = c'.next) :
    c.Heads is d := by
  cases h with
  | finish h => exact .finish (he.trans h)
  | child h hi ho => exact .child (he.trans h) hi ho

theorem Heads.next_eq {c d : Cursor} (h : c.Heads is d) : ∃ tag i, c.next = (.ok tag, i) := by
  cases h with
  | finish h => exact ⟨_, _, h⟩
  | child h _ _ => exact ⟨_, _, h⟩

/-! ### Sections that are the same -/

/-- The name of the tag the cursor is on. -/
def tagName (c : Cursor) : Xml.ResolvedName := ⟨.ok c.namespaceUri, c.localName⟩

theorem tagName_of_openElement {c i : Cursor} (h : c.openElement offset name tag scope = .ok i) :
    i.tagName = name := by
  obtain ⟨uri, attrs, huri, _, _, _, rfl⟩ := openElement_eq_ok.1 h
  rw [tagName, ← namespaceOf_eq_ok.1 huri]

/-- The cursors are on the start tags of elements with one name, which have the same tree, if any. -/
structure SameElement (i i' : Cursor) : Prop where
  tagName : i'.tagName = i.tagName
  spans : ∀ e, (∃ d, i.Spans e d) ↔ ∃ d, i'.Spans e d

theorem Spans.transfer {i i' d : Cursor} {inside es ts : List Xml.Event} (h : i.Spans e d)
    (hsame : i.SameTag i') (hc : Xml.Closes 1 inside) (hopen : i.opened ≠ [])
    (hm : i.marks = inside ++ es) (hm' : i'.marks = inside ++ ts) : ∃ d', i'.Spans e d' := by
  obtain ⟨used, he, htransfer⟩ := h.inside.transfer
  -- What the tree takes is what skipping the element takes.
  obtain ⟨_, hbehind, _⟩ :=
    skipElement_transfer hc rfl hopen hm hm (h.inside.skipElement hopen)
  rw [hm, hbehind] at he
  obtain rfl := List.append_cancel_right he
  obtain ⟨d', hd', _⟩ := htransfer i' ts hsame.opened hm'
  refine ⟨d', ⟨?_, hd'⟩⟩
  rw [h.start, element, element, hsame.namespaceUri, hsame.localName, hsame.attributes]

theorem SameTag.sameElement {i i' : Cursor} {inside es ts : List Xml.Event} (hsame : i.SameTag i')
    (hc : Xml.Closes 1 inside) (hopen : i.opened ≠ []) (hm : i.marks = inside ++ es)
    (hm' : i'.marks = inside ++ ts) : i.SameElement i' where
  tagName := by rw [Cursor.tagName, hsame.namespaceUri, hsame.localName, Cursor.tagName]
  spans e := by
    have hsame' : i'.SameTag i :=
      ⟨hsame.opened.symm, hsame.localName.symm, hsame.namespaceUri.symm, hsame.attributes.symm⟩
    have hopen' : i'.opened ≠ [] := hsame.opened ▸ hopen
    exact ⟨fun ⟨_, h⟩ => h.transfer hsame hc hopen hm hm',
      fun ⟨_, h⟩ => h.transfer hsame' hc hopen' hm' hm⟩

/-! ### Documents without some of their sections -/

theorem next_start_eq_ok {c i : Cursor} (hp : c.pending = .start offset name tag scope :: events)
    (h : c.next = (.ok found, i)) :
    found = .start ∧ (c.before events).openElement offset name tag scope = .ok i := by
  rw [next_eq_settle_start hp] at h
  have hi := settle_eq_ok h
  rw [hi] at h
  cases h
  exact ⟨rfl, hi⟩

theorem next_finish_eq_ok {c d : Cursor} (hp : c.pending = .finish offset name :: events)
    (h : c.next = (.ok found, d)) :
    found = .finish ∧ (c.before events).closeElement offset name = .ok d := by
  rw [next_eq_settle_finish hp] at h
  have hd := settle_eq_ok h
  rw [hd] at h
  cases h
  exact ⟨rfl, hd⟩

theorem next_cdata_eq_ok {c d : Cursor} (hp : c.pending = .cdata offset content :: events)
    (h : c.next = (.ok found, d)) : Text.trimmed (String.ofList content) = "" := by
  by_cases hb : Text.trimmed (String.ofList content) = ""
  · exact hb
  · rw [next_stray_cdata hp hb] at h
    cases h

variable {selects : Xml.ResolvedName → Bool}

theorem marks_of_openElement {c i : Cursor}
    (h : (c.before events).openElement offset name tag scope = .ok i)
    (hm : (c.before events).marks = more) : i.marks = more ∧ i.opened ≠ [] :=
  ⟨(marks_of_pending (openElement_reads h).1).trans hm, by simp [(openElement_moves h).1]⟩

/-- The element that is skipped is what is written between its tags. -/
theorem skipped_of_closes {c i o : Cursor} {inside es : List Xml.Event} (hc : Xml.Closes 1 inside)
    (hi : (c.before events).openElement offset name tag scope = .ok i)
    (hm : (c.before events).marks = inside ++ es) (hs : i.skipElement = (.ok (), o)) :
    o.opened = c.opened ∧ o.marks = es := by
  obtain ⟨him, hopen⟩ := marks_of_openElement hi hm
  obtain ⟨hopened, hmarks, _⟩ := skipElement_transfer hc rfl hopen him him hs
  exact ⟨by rw [hopened, (openElement_moves hi).1]; rfl, hmarks⟩

/-- An element that is skipped is skipped wherever it is written, and has the same tree there. -/
theorem exists_sameElement {c c' i o : Cursor} {inside es ts : List Xml.Event}
    (hc : Xml.Closes 1 inside) (ho : c'.opened = c.opened)
    (hi : (c.before events).openElement offset name tag scope = .ok i)
    (hm : (c.before events).marks = inside ++ es) (hm' : (c'.before events').marks = inside ++ ts)
    (hskip : i.skipElement = (.ok (), o)) (offset' : Nat) : ∃ i' o',
    (c'.before events').openElement offset' name tag scope = .ok i' ∧
      i'.skipElement = (.ok (), o') ∧ i.SameElement i' ∧ o.marks = es ∧ o'.marks = ts ∧
      o'.opened = o.opened := by
  obtain ⟨i', hi', _, hsame⟩ :=
    @exists_openElement (c.before events) (c'.before events') ho _ _ _ _ _ hi offset'
  obtain ⟨him, hopen⟩ := marks_of_openElement hi hm
  obtain ⟨him', _⟩ := marks_of_openElement hi' hm'
  obtain ⟨_, hmarks, o', hskip', hopened, hmarks'⟩ :=
    skipElement_transfer hc hsame.opened hopen him him' hskip
  exact ⟨i', o', hi', hskip', hsame.sameElement hc hopen him him', hmarks, hmarks', hopened⟩

/-- The sections that are met are met in the text that is left, if they are selected. -/
theorem Heads.omit {c c' d : Cursor} (hh : c.Heads is d) (h : Xml.Omits selects run es ts)
    (hm : c.marks = es) (hm' : c'.marks = ts) (ho : c'.opened = c.opened)
    (hb : Xml.IsBlankRun run) : c.Skims ∧ ∃ is' d', c'.Heads is' d' ∧
      List.Forall₂ SameElement (is.filter (selects ·.tagName)) is' := by
  induction h generalizing c c' is with
  | run h ih =>
    obtain ⟨events, hmore, hskims, hnext, hblank⟩ := exists_behind_run hm
    obtain ⟨tag, i, hi⟩ := hh.next_eq
    have hrun := hblank tag i hi
    obtain ⟨hs, hrest⟩ := ih (hh.of_next (hnext hrun).symm) hmore hm' ho (hb.append hrun)
    obtain ⟨out, hr, _⟩ := hrun
    exact ⟨hskims.2 ⟨⟨out, hr⟩, hs⟩, hrest⟩
  | aside h ih =>
    obtain ⟨events', hmore', _, hnext', _⟩ := exists_behind_run hm'
    obtain ⟨hs, is', d', hh', hall⟩ := @ih is c (c'.before events') hh hm hmore' ho
      Xml.isBlankRun_nil
    exact ⟨hs, is', d', hh'.of_next (hnext' hb), hall⟩
  | cdata h ih =>
    obtain ⟨offset, events, hp, hmore⟩ := exists_pending hm
    obtain ⟨b', offset', events', hnext', ho', hp', hmore'⟩ := exists_pending_behind_run hm' hb
    obtain ⟨tag, i, hi⟩ := hh.next_eq
    have hblank := next_cdata_eq_ok hp hi
    obtain ⟨hs, is', d', hh', hall⟩ := @ih is (c.before events) (b'.before events')
      (hh.of_next (next_cdata hp hblank).symm) hmore hmore' (ho'.trans ho) Xml.isBlankRun_nil
    exact ⟨.cdata hp hs, is', d', hh'.of_next (hnext'.trans (next_cdata hp' hblank)), hall⟩
  | omitted hn hc h ih =>
    obtain ⟨offset, events, hp, hmore⟩ := exists_pending hm
    cases hh with
    | finish hnext => cases (next_start_eq_ok hp hnext).1
    | child hnext hskip hrest =>
      obtain ⟨_, hi⟩ := next_start_eq_ok hp hnext
      obtain ⟨hopened, hmarks⟩ := skipped_of_closes hc hi hmore hskip
      obtain ⟨hs, hall⟩ := ih hrest hmarks hm' (ho.trans hopened.symm) hb
      refine ⟨.element hp hi hskip hs, ?_⟩
      rwa [List.filter_cons_of_neg (by rw [tagName_of_openElement hi, hn]; simp)]
  | selected hn hc h ih =>
    obtain ⟨offset, events, hp, hmore⟩ := exists_pending hm
    obtain ⟨b', offset', events', hnext', ho', hp', hmore'⟩ := exists_pending_behind_run hm' hb
    cases hh with
    | finish hnext => cases (next_start_eq_ok hp hnext).1
    | child hnext hskip hrest =>
      obtain ⟨_, hi⟩ := next_start_eq_ok hp hnext
      obtain ⟨i', o', hi', hskip', hsame, hmarks, hmarks', hopened⟩ :=
        exists_sameElement hc (ho'.trans ho) hi hmore hmore' hskip offset'
      obtain ⟨hs, is', d', hh', hall⟩ := ih hrest hmarks hmarks' hopened Xml.isBlankRun_nil
      refine ⟨.element hp hi hskip hs, i' :: is', d',
        .child (hnext'.trans (next_start hp' hi')) hskip' hh', ?_⟩
      rw [List.filter_cons_of_pos (by rw [tagName_of_openElement hi, hn])]
      exact .cons hsame hall
  | finish =>
    obtain ⟨offset, events, hp, hmore⟩ := exists_pending hm
    obtain ⟨b', offset', events', hnext', ho', hp', _⟩ := exists_pending_behind_run hm' hb
    cases hh with
    | child hnext _ _ => cases (next_finish_eq_ok hp hnext).1
    | finish hnext =>
      obtain ⟨_, hd⟩ := next_finish_eq_ok hp hnext
      obtain ⟨d', hd', _⟩ := @exists_closeElement (c.before events) (b'.before events')
        (ho'.trans ho) _ _ _ hd offset'
      exact ⟨.finish hp hd, [], d', .finish (hnext'.trans (next_finish hp' hd')), .nil⟩

/-- What is met in the text that is left is met in a document, if all its sections can be skipped. -/
theorem Heads.insert {c c' d' : Cursor} (hh : c'.Heads is' d') (hs : c.Skims)
    (h : Xml.Omits selects run es ts) (hm : c.marks = es) (hm' : c'.marks = ts)
    (ho : c'.opened = c.opened) (hb : Xml.IsBlankRun run) : ∃ is d, c.Heads is d ∧
      List.Forall₂ SameElement (is.filter (selects ·.tagName)) is' := by
  induction h generalizing c c' is' with
  | @run run run' es ts h ih =>
    obtain ⟨events, hmore, hskims, hnext, _⟩ := exists_behind_run hm
    obtain ⟨⟨out, hr⟩, hs⟩ := hskims.1 hs
    -- What is passed over in the text that is left is all of the run, and so blank.
    obtain ⟨run'', rest, rfl⟩ := h.run_ahead
    obtain ⟨_, _, _, _, hblank⟩ := exists_behind_run hm'
    obtain ⟨tag, i, hi⟩ := hh.next_eq
    obtain ⟨first, hfirst, _⟩ := id hb
    have hall := ((hblank tag i hi).split (hfirst.append hr)).1
    obtain ⟨is, d, hh, hsame⟩ := ih hh hs hmore hm' ho hall
    exact ⟨is, d, hh.of_next (hnext (hall.split hfirst).2), hsame⟩
  | aside h ih =>
    obtain ⟨events', hmore', _, hnext', _⟩ := exists_behind_run hm'
    exact @ih is' c (c'.before events') (hh.of_next (hnext' hb).symm) hs hm hmore' ho
      Xml.isBlankRun_nil
  | cdata h ih =>
    obtain ⟨offset, events, hp, hmore⟩ := exists_pending hm
    obtain ⟨b', offset', events', hnext', ho', hp', hmore'⟩ := exists_pending_behind_run hm' hb
    have hh := hh.of_next hnext'.symm
    obtain ⟨tag, i, hi⟩ := hh.next_eq
    have hblank := next_cdata_eq_ok hp' hi
    obtain ⟨is, d, hh, hsame⟩ := @ih is' (c.before events) (b'.before events')
      (hh.of_next (next_cdata hp' hblank).symm) ((skims_cdata_iff hp).1 hs) hmore hmore'
      (ho'.trans ho) Xml.isBlankRun_nil
    exact ⟨is, d, hh.of_next (next_cdata hp hblank), hsame⟩
  | omitted hn hc h ih =>
    obtain ⟨offset, events, hp, hmore⟩ := exists_pending hm
    obtain ⟨i, o, hi, hskip, hs⟩ := hs.of_start hp
    obtain ⟨hopened, hmarks⟩ := skipped_of_closes hc hi hmore hskip
    obtain ⟨is, d, hh, hsame⟩ := ih hh hs hmarks hm' (ho.trans hopened.symm) hb
    refine ⟨i :: is, d, .child (next_start hp hi) hskip hh, ?_⟩
    rwa [List.filter_cons_of_neg (by rw [tagName_of_openElement hi, hn]; simp)]
  | selected hn hc h ih =>
    obtain ⟨offset, events, hp, hmore⟩ := exists_pending hm
    obtain ⟨b', offset', events', hnext', ho', hp', hmore'⟩ := exists_pending_behind_run hm' hb
    obtain ⟨i, o, hi, hskip, hs⟩ := hs.of_start hp
    obtain ⟨i₁, o₁, hi₁, hskip₁, hsame, hmarks, hmarks', hopened⟩ :=
      exists_sameElement hc (ho'.trans ho) hi hmore hmore' hskip offset'
    cases hh.of_next hnext'.symm with
    | finish hnext => cases (next_start_eq_ok hp' hnext).1
    | child hnext hskip' hrest =>
      cases (next_start_eq_ok hp' hnext).2.symm.trans hi₁
      cases hskip'.symm.trans hskip₁
      obtain ⟨is, d, hh, hall⟩ := ih hrest hs hmarks hmarks' hopened Xml.isBlankRun_nil
      refine ⟨i :: is, d, .child (next_start hp hi) hskip hh, ?_⟩
      rw [List.filter_cons_of_pos (by rw [tagName_of_openElement hi, hn])]
      exact .cons hsame hall
  | finish =>
    obtain ⟨offset, events, hp, hmore⟩ := exists_pending hm
    obtain ⟨b', offset', events', hnext', ho', hp', _⟩ := exists_pending_behind_run hm' hb
    cases hh.of_next hnext'.symm with
    | child hnext _ _ => cases (next_finish_eq_ok hp' hnext).1
    | finish hnext =>
      obtain ⟨_, hd'⟩ := next_finish_eq_ok hp' hnext
      obtain ⟨d, hd, _⟩ := @exists_closeElement (b'.before events') (c.before events)
        (ho'.trans ho).symm _ _ _ hd' offset
      exact ⟨[], d, .finish (next_finish hp hd), .nil⟩

/-- The element is the one that is selected among the children of the element the cursor is in. -/
def HoldsOne (selects : Xml.ResolvedName → Bool) (c : Cursor) (e : Element) : Prop :=
  ∃ is d i d', c.Heads is d ∧ is.filter (selects ·.tagName) = [i] ∧ i.Spans e d'

theorem filter_of_same {is is' : List Cursor} (h : List.Forall₂ SameElement is is')
    (hs : ∀ i ∈ is, selects i.tagName = true) : is'.filter (selects ·.tagName) = is' := by
  induction h with
  | nil => rfl
  | cons h _ ih =>
    obtain ⟨hi, hs⟩ := List.forall_mem_cons.1 hs
    rw [List.filter_cons_of_pos (by rw [h.tagName, hi]), ih hs]

/-- Where all sections can be skipped, one is selected exactly if it is one of the text that is left. -/
theorem holdsOne_iff {c c' : Cursor} (h : Xml.Omits selects [] c.marks c'.marks)
    (ho : c'.opened = c.opened) :
    c.HoldsOne selects e ↔ c.Skims ∧ c'.HoldsOne selects e := by
  apply Iff.intro
  · intro hone
    obtain ⟨is, d, i, d₁, hh, hone, hi⟩ := hone
    obtain ⟨hs, is', d', hh', hall⟩ := hh.omit h rfl rfl ho Xml.isBlankRun_nil
    have hsame := filter_of_same hall fun i hi => (List.mem_filter.1 hi).2
    rw [hone] at hall
    obtain ⟨i', _, hii', hnil, rfl⟩ := List.forall₂_cons_left_iff.1 hall
    cases hnil
    obtain ⟨d₁', hi'⟩ := (hii'.spans e).1 ⟨d₁, hi⟩
    exact ⟨hs, [i'], d', i', d₁', hh', hsame, hi'⟩
  · intro h'
    obtain ⟨hs, is', d', i', d₁', hh', hone', hi'⟩ := h'
    obtain ⟨is, d, hh, hall⟩ := hh'.insert hs h rfl rfl ho Xml.isBlankRun_nil
    rw [← filter_of_same hall fun i hi => (List.mem_filter.1 hi).2, hone'] at hall
    obtain ⟨i, _, hii', hnil, hone⟩ := List.forall₂_cons_right_iff.1 hall
    cases hnil
    obtain ⟨d₁, hi⟩ := (hii'.spans e).2 ⟨d₁', hi'⟩
    exact ⟨is, d, i, d₁, hh, hone, hi⟩

theorem Skims.endsRoot {c : Cursor} (h : c.Skims) (hd : c.depth = 1) : Xml.EndsRoot 1 c.pending := by
  induction h with
  | finish hp _ =>
    rw [hp]
    exact .last
  | text hp _ _ ih =>
    rw [hp]
    exact (ih hd).text
  | cdata hp _ ih =>
    rw [hp]
    exact (ih hd).cdata
  | element hp hi hs _ ih =>
    have hdepth : _ = 2 := (openElement_depth hi).trans (congrArg (· + 1) hd)
    obtain ⟨hout, _, hend⟩ := endsRoot_of_skipAmong (Nat.sub_le _ 1) hs
    rw [hdepth] at hout hend
    have hinside := hend (ih hout)
    rw [(openElement_reads hi).1] at hinside
    rw [hp]
    exact .start hinside

/-- Character data that has a meaning is passed over wherever it stands. -/
theorem exists_behind_text {c i : Cursor} {event : Xml.Event} (ht : event.IsText)
    (hm : c.marks = event :: more) (h : c.next = (.ok found, i)) (c' : Cursor)
    (hm' : c'.marks = event :: more') :
    ∃ c₁ : Cursor, c'.next = c₁.next ∧ c₁.opened = c'.opened ∧ c₁.marks = more' := by
  obtain ⟨offset, events, hp, _⟩ := exists_pending hm
  obtain ⟨offset', events', hp', hmore'⟩ := exists_pending hm'
  cases event with
  | text _ raw =>
    obtain ⟨content, hread, hb⟩ := readText_of_next hp h
    exact ⟨c'.before events', next_text hp' (readText_eq_ok.2 hread) hb, rfl, hmore'⟩
  | cdata _ content =>
    exact ⟨c'.before events', next_cdata hp' (next_cdata_eq_ok hp h), rfl, hmore'⟩
  | start | finish | fault => exact ht.elim

/-- From texts that differ inside the root only, the same root is reached. -/
theorem next_transfer {c c' i : Cursor} {past es ts : List Xml.Event}
    (hpast : ∀ event ∈ past, event.IsText) (hm : c.marks = past ++ .start 0 name tag scope :: es)
    (hm' : c'.marks = past ++ .start 0 name tag scope :: ts) (ho : c'.opened = c.opened)
    (h : c.next = (.ok found, i)) : found = .start ∧ i.marks = es ∧
      ∃ i', c'.next = (.ok .start, i') ∧ i.SameTag i' ∧ i'.marks = ts := by
  induction past generalizing c c' with
  | nil =>
    obtain ⟨offset, events, hp, hmore⟩ := exists_pending hm
    obtain ⟨offset', events', hp', hmore'⟩ := exists_pending hm'
    obtain ⟨rfl, hi⟩ := next_start_eq_ok hp h
    obtain ⟨i', hi', _, hsame⟩ := @exists_openElement (c.before events) (c'.before events') ho _ _ _ _ _
      hi offset'
    exact ⟨rfl, (marks_of_openElement hi hmore).1, i', next_start hp' hi', hsame,
      (marks_of_openElement hi' hmore').1⟩
  | cons event past ih =>
    obtain ⟨htext, hbehind⟩ := List.forall_mem_cons.1 hpast
    obtain ⟨c₁, hnext, ho₁, hm₁⟩ := exists_behind_text htext hm h c hm
    obtain ⟨c₁', hnext', ho₁', hm₁'⟩ := exists_behind_text htext hm h c' hm'
    rw [hnext] at h
    rw [hnext']
    exact ih hbehind hm₁ hm₁' (ho₁'.trans (ho.trans ho₁.symm)) h

/-- The root that is reached is the one that is written there. -/
theorem tagName_of_next {c i : Cursor} {past es : List Xml.Event}
    (hpast : ∀ event ∈ past, event.IsText) (hm : c.marks = past ++ .start 0 name tag scope :: es)
    (h : c.next = (.ok found, i)) : i.tagName = name := by
  induction past generalizing c with
  | nil =>
    obtain ⟨offset, events, hp, _⟩ := exists_pending hm
    exact tagName_of_openElement (next_start_eq_ok hp h).2
  | cons event past ih =>
    obtain ⟨htext, hbehind⟩ := List.forall_mem_cons.1 hpast
    obtain ⟨c₁, hnext, _, hm₁⟩ := exists_behind_text htext hm h c hm
    exact ih hbehind hm₁ (hnext ▸ h)

end Cursor

end ManagementScript
