import ManagementScript.Proofs.Tree.CharacterData
import ManagementScript.Proofs.Tree.Echo

/-!
The same markup at two places. A cursor reads it in one way wherever it is, as long as elements of the
same names are open, and whatever is behind it.
-/

namespace ManagementScript

namespace Xml

/-- The event at another place. -/
def Event.placed (offset : Nat) : Event → Event
  | .start _ name tag scope => .start offset name tag scope
  | .finish _ name => .finish offset name
  | .text _ raw => .text offset raw
  | .cdata _ content => .cdata offset content
  | .fault _ defect => .fault offset defect

theorem Event.exists_placed (event : Event) : ∃ offset, event = event.unplaced.placed offset := by
  cases event <;> exact ⟨_, rfl⟩

/-- Character data or a section. -/
def Event.IsText : Event → Prop
  | .text .. | .cdata .. => True
  | .start .. | .finish .. | .fault .. => False

theorem exists_placed_of_map {events : List Event} (h : events.map Event.unplaced = mark :: more) :
    ∃ offset behind, events = mark.placed offset :: behind ∧ behind.map Event.unplaced = more := by
  obtain ⟨event, behind, rfl, rfl, hmore⟩ := List.map_eq_cons_iff.1 h
  obtain ⟨offset, he⟩ := event.exists_placed
  exact ⟨offset, behind, by rw [← he], hmore⟩

/-- After the events, that many elements fewer are open than before, and not until their end. -/
inductive Closes : Nat → List Event → Prop where
  | last : Closes 1 [.finish offset name]
  | finish (h : Closes (depth + 1) es) : Closes (depth + 2) (.finish offset name :: es)
  | start (h : Closes (depth + 1) es) : Closes depth (.start offset name tag scope :: es)
  | text (h : Closes depth es) : Closes depth (.text offset raw :: es)
  | cdata (h : Closes depth es) : Closes depth (.cdata offset content :: es)

end Xml

namespace Cursor

/-- The cursors are on tags that say the same, inside elements of the same names. -/
structure SameTag (c c' : Cursor) : Prop where
  opened : c'.opened = c.opened
  localName : c'.localName = c.localName
  namespaceUri : c'.namespaceUri = c.namespaceUri
  attributes : c'.attributes = c.attributes

theorem exists_pending {c : Cursor} (h : c.marks = mark :: more) : ∃ offset events,
    c.pending = mark.placed offset :: events ∧ (c.before events).marks = more :=
  Xml.exists_placed_of_map h

theorem marks_of_pending {c d : Cursor} (h : d.pending = c.pending) : d.marks = c.marks :=
  congrArg (List.map Xml.Event.unplaced) h

/-! ### One tag -/

section

variable {c c' : Cursor} (ho : c'.opened = c.opened)

include ho

theorem exists_openElement {i : Cursor} (hi : c.openElement offset name tag scope = .ok i)
    (offset' : Nat) : ∃ i', c'.openElement offset' name tag scope = .ok i' ∧
      i'.pending = c'.pending ∧ i.SameTag i' := by
  obtain ⟨uri, attrs, huri, hattrs, hdepth, hlength, rfl⟩ := openElement_eq_ok.1 hi
  have hread := (readAttributes_alike (.refl tag) (fun _ => rfl) hattrs).1
  have hdepth' : c'.depth = c.depth := congrArg List.length ho
  refine ⟨_, openElement_eq_ok.2 ⟨uri, attrs, namespaceOf_eq_ok.2 (namespaceOf_eq_ok.1 huri),
    hread _, hdepth' ▸ hdepth, hlength, rfl⟩, rfl, ?_⟩
  exact ⟨congrArg (_ :: ·) ho, rfl, rfl, rfl⟩

theorem exists_closeElement {d : Cursor} (hd : c.closeElement offset name = .ok d) (offset' : Nat) :
    ∃ d', c'.closeElement offset' name = .ok d' ∧ d'.pending = c'.pending ∧ d.SameTag d' := by
  obtain ⟨uri, huri, rfl⟩ := closeElement_eq_ok.1 hd
  refine ⟨_, closeElement_eq_ok.2 ⟨uri, namespaceOf_eq_ok.2 (namespaceOf_eq_ok.1 huri), rfl⟩, rfl, ?_⟩
  exact ⟨congrArg List.tail ho, rfl, rfl, rfl⟩

end

/-! ### A tree -/

/-- A tree is read wherever its markup is. -/
theorem Encloses.transfer {c d : Cursor} (h : c.Encloses nodes d) : ∃ used,
    c.marks = used ++ d.marks ∧ ∀ (c' : Cursor) ahead, c'.opened = c.opened →
      c'.marks = used ++ ahead →
        ∃ d', c'.Encloses nodes d' ∧ d'.opened = d.opened ∧ d'.marks = ahead := by
  induction h with
  | @finish events c d offset name hp hd =>
    have hbehind := (closeElement_pending hd).1
    refine ⟨[.finish 0 name], ?_, fun c' ahead ho hm => ?_⟩
    · rw [marks_of_pending hbehind, marks, hp]
      rfl
    · obtain ⟨offset', events', hp', hmore⟩ := exists_pending hm
      obtain ⟨d', hd', hpending, hsame⟩ := @exists_closeElement (c.before events)
        (c'.before events') ho _ _ _ hd offset'
      exact ⟨d', .finish hp' hd', hsame.opened, (marks_of_pending hpending).trans hmore⟩
  | @text events nodes d c content offset raw hp ht _ ih =>
    obtain ⟨used, he, htransfer⟩ := ih
    refine ⟨.text 0 raw :: used, ?_, fun c' ahead ho hm => ?_⟩
    · rw [marks, hp]
      exact congrArg _ he
    · obtain ⟨offset', events', hp', hmore⟩ := exists_pending hm
      obtain ⟨d', hd', hrest⟩ := htransfer (c'.before events') ahead ho hmore
      exact ⟨d', .text hp' (readText_eq_ok.2 (readText_eq_ok.1 ht)) hd', hrest⟩
  | @cdata events nodes d c content offset hp _ ih =>
    obtain ⟨used, he, htransfer⟩ := ih
    refine ⟨.cdata 0 content :: used, ?_, fun c' ahead ho hm => ?_⟩
    · rw [marks, hp]
      exact congrArg _ he
    · obtain ⟨offset', events', hp', hmore⟩ := exists_pending hm
      obtain ⟨d', hd', hrest⟩ := htransfer (c'.before events') ahead ho hmore
      exact ⟨d', .cdata hp' hd', hrest⟩
  | @element events i within o nodes d c offset name tag scope hp hi hin _ ihin ih =>
    obtain ⟨inside, hinside, hwithin⟩ := ihin
    obtain ⟨used, he, htransfer⟩ := ih
    refine ⟨.start 0 name tag scope :: (inside ++ used), ?_, fun c' ahead ho hm => ?_⟩
    · have hopened : i.marks = (c.before events).marks := marks_of_pending (openElement_reads hi).1
      rw [hinside, he, ← List.append_assoc] at hopened
      rw [marks, hp]
      exact congrArg _ hopened.symm
    · rw [List.cons_append, List.append_assoc] at hm
      obtain ⟨offset', events', hp', hmore⟩ := exists_pending hm
      obtain ⟨i', hi', hpending, hsame⟩ := @exists_openElement (c.before events)
        (c'.before events') ho _ _ _ _ _ hi offset'
      obtain ⟨o', hin', ho', hmarks⟩ := hwithin i' _ hsame.opened
        ((marks_of_pending hpending).trans hmore)
      obtain ⟨d', hd', hrest⟩ := htransfer o' ahead ho' hmarks
      have hnodes := Encloses.element hp' hi' hin' hd'
      rw [hsame.namespaceUri, hsame.localName, hsame.attributes] at hnodes
      exact ⟨d', hnodes, hrest⟩

/-! ### An element that is skipped -/

/-- A start tag that is skipped is skipped at the other place. -/
theorem skipAmong_start_transfer {c c' d : Cursor} (ho : c'.opened = c.opened) (ht : target < c.depth)
    (hskip : skipAmong target c (.start offset name tag scope :: events) = (.ok (), d)) (offset' : Nat)
    (events' : List Xml.Event) : ∃ i i', i.opened = name.localName :: c.opened ∧
      i'.opened = i.opened ∧ skipAmong target i events = (.ok (), d) ∧
      skipAmong target c' (.start offset' name tag scope :: events') = skipAmong target i' events' := by
  have ht' : target < c'.depth := by rwa [depth, ho]
  obtain ⟨i, hi, hrest⟩ := (skipAmong_start_eq_ok ht).1 hskip
  obtain ⟨i', hi', _, hsame⟩ := @exists_openElement (c.before events) (c'.before events') ho
    _ _ _ _ _ hi offset'
  exact ⟨i, i', (openElement_moves hi).1, hsame.opened, hrest, by simp only [skipAmong_cons ht', hi']⟩

/-- An end tag that is skipped is skipped at the other place. -/
theorem skipAmong_finish_transfer {c c' d : Cursor} (ho : c'.opened = c.opened) (ht : target < c.depth)
    (hskip : skipAmong target c (.finish offset name :: events) = (.ok (), d)) (offset' : Nat)
    (events' : List Xml.Event) : ∃ o o', o.opened = c.opened.tail ∧ o'.opened = o.opened ∧
      skipAmong target o events = (.ok (), d) ∧
      skipAmong target c' (.finish offset' name :: events') = skipAmong target o' events' := by
  have ht' : target < c'.depth := by rwa [depth, ho]
  obtain ⟨o, hc, hrest⟩ := (skipAmong_finish_eq_ok ht).1 hskip
  obtain ⟨o', hc', _, hsame⟩ := @exists_closeElement (c.before events) (c'.before events') ho
    _ _ _ hc offset'
  exact ⟨o, o', (closeElement_moves hc).1, hsame.opened, hrest, by simp only [skipAmong_cons ht', hc']⟩

/-- What is skipped at one place is skipped at the other, and no more than that. -/
theorem skipAmong_transfer {c c' d : Cursor} {rest rest' : List Xml.Event} (h : Xml.Closes n es)
    (ho : c'.opened = c.opened) (hn : 0 < n) (hdepth : c.depth = target + n)
    (hm : events.map Xml.Event.unplaced = es ++ rest)
    (hm' : events'.map Xml.Event.unplaced = es ++ rest')
    (hskip : skipAmong target c events = (.ok (), d)) :
    d.opened = c.opened.drop n ∧ d.marks = rest ∧ ∃ d', skipAmong target c' events' = (.ok (), d') ∧
      d'.opened = d.opened ∧ d'.marks = rest' := by
  induction h generalizing c c' events events' with
  | last =>
    obtain ⟨_, behind, rfl, hbehind⟩ := Xml.exists_placed_of_map hm
    obtain ⟨offset', behind', rfl, hbehind'⟩ := Xml.exists_placed_of_map hm'
    obtain ⟨o, o', hopened, ho', hrest, hskip'⟩ :=
      skipAmong_finish_transfer ho (by omega) hskip offset' behind'
    have hle : o.depth ≤ target := by
      rw [depth, hopened, List.length_tail]
      exact Nat.sub_le_of_le_add (Nat.le_of_eq hdepth)
    have hle' : o'.depth ≤ target := by rwa [depth, ho']
    rw [skipAmong_stop hle] at hrest
    cases hrest
    exact ⟨by rw [List.drop_one]; exact hopened, hbehind, _, hskip'.trans (skipAmong_stop hle' _), ho',
      hbehind'⟩
  | @finish depth es offset name h ih =>
    obtain ⟨_, behind, rfl, hbehind⟩ := Xml.exists_placed_of_map hm
    obtain ⟨offset', behind', rfl, hbehind'⟩ := Xml.exists_placed_of_map hm'
    obtain ⟨o, o', hopened, ho', hrest, hskip'⟩ :=
      skipAmong_finish_transfer ho (by omega) hskip offset' behind'
    have hdepth' : o.depth = target + (depth + 1) := by
      rw [Cursor.depth, hopened, List.length_tail]
      exact congrArg (· - 1) hdepth
    obtain ⟨hd, hmarks, d', hd', hmore⟩ := ih ho' (Nat.succ_pos _) hdepth' hbehind hbehind' hrest
    refine ⟨?_, hmarks, d', hskip'.trans hd', hmore⟩
    rw [hd, hopened, ← List.drop_one, List.drop_drop, Nat.add_comm]
  | @start depth es offset name tag scope h ih =>
    obtain ⟨_, behind, rfl, hbehind⟩ := Xml.exists_placed_of_map hm
    obtain ⟨offset', behind', rfl, hbehind'⟩ := Xml.exists_placed_of_map hm'
    obtain ⟨i, i', hopened, ho', hrest, hskip'⟩ :=
      skipAmong_start_transfer ho (by omega) hskip offset' behind'
    have hdepth' : i.depth = target + (depth + 1) := by
      rw [Cursor.depth, hopened]
      exact congrArg (· + 1) hdepth
    obtain ⟨hd, hmarks, d', hd', hmore⟩ := ih ho' (Nat.succ_pos _) hdepth' hbehind hbehind' hrest
    refine ⟨?_, hmarks, d', hskip'.trans hd', hmore⟩
    rw [hd, hopened, List.drop_succ_cons]
  | text _ ih | cdata _ ih =>
    obtain ⟨_, behind, rfl, hbehind⟩ := Xml.exists_placed_of_map hm
    obtain ⟨offset', behind', rfl, hbehind'⟩ := Xml.exists_placed_of_map hm'
    have hlt : target < c.depth := by omega
    have hlt' : target < c'.depth := by rwa [depth, ho]
    obtain ⟨hd, hmarks, d', hskip', hmore⟩ := @ih _ _ (c.before behind) (c'.before behind') ho hn
      hdepth hbehind hbehind' ((skipAmong_cons hlt).symm.trans hskip)
    exact ⟨hd, hmarks, d', (skipAmong_cons hlt').trans hskip', hmore⟩

/-- An element is skipped wherever it is. -/
theorem skipElement_transfer {i i' d : Cursor} {rest rest' : List Xml.Event} (h : Xml.Closes 1 es)
    (ho : i'.opened = i.opened) (hopen : i.opened ≠ []) (hm : i.marks = es ++ rest)
    (hm' : i'.marks = es ++ rest') (hskip : i.skipElement = (.ok (), d)) :
    d.opened = i.opened.tail ∧ d.marks = rest ∧ ∃ d', i'.skipElement = (.ok (), d') ∧
      d'.opened = d.opened ∧ d'.marks = rest' := by
  have hdepth : i.depth = i.depth - 1 + 1 := by
    have hpos : 0 < i.depth := List.length_pos_iff.2 hopen
    omega
  have hdepth' : i'.depth = i.depth := congrArg List.length ho
  rw [skipElement, hdepth']
  rw [← List.drop_one]
  exact skipAmong_transfer h ho Nat.one_pos hdepth hm hm' hskip

end Cursor

end ManagementScript
