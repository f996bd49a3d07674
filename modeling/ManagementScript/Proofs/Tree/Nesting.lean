import Mathlib
import ManagementScript.Proofs.Tree.Echo
import ManagementScript.Proofs.Tree.Places

/-!
A cursor keeps account of the elements it is in. However it is moved, as long as no move fails, the
elements that it has open are those of the document that have begun before it and have not ended.
-/

namespace ManagementScript

namespace Xml

namespace Event

def isStart : Event → Bool
  | .start .. => true
  | _ => false

def isFinish : Event → Bool
  | .finish .. => true
  | _ => false

end Event

/-- What has been read leaves elements of the names open, the innermost first. -/
inductive Unclosed : List Event → List ResolvedName → Prop where
  | nil (h : Balanced past) : Unclosed past []
  | element (h : Unclosed past names) (hin : Balanced inside) :
      Unclosed (past ++ .start offset name tag scope :: inside) (name :: names)

/-- What is not read yet closes elements of the names before others, the innermost first. -/
inductive Awaits : List ResolvedName → List Event → Prop where
  | nil : Awaits names []
  | text (h : Awaits names ahead) : Awaits names (.text offset raw :: ahead)
  | cdata (h : Awaits names ahead) : Awaits names (.cdata offset content :: ahead)
  | fault : Awaits names (.fault offset defect :: ahead)
  | start (h : Awaits (name :: names) ahead) : Awaits names (.start offset name tag scope :: ahead)
  | finish (h : Awaits names ahead) : Awaits (name :: names) (.finish offset name :: ahead)

/-- A place of a document, inside elements of the names and before the events `ahead`. -/
structure Within (source : String) (names : List ResolvedName) (ahead : List Event) : Prop where
  read : ∃ past, events source = past ++ ahead ∧ Unclosed past names
  awaits : Awaits names ahead

theorem Balanced.append (h : Balanced past) (h' : Balanced ahead) : Balanced (past ++ ahead) := by
  induction h with
  | nil => exact h'
  | text _ ih => exact ih.text
  | cdata _ ih => exact ih.cdata
  | element hin _ _ ih =>
    rw [List.cons_append, List.append_assoc, List.cons_append]
    exact hin.element ih

theorem Unclosed.append (h : Unclosed past names) (hb : Balanced inside) :
    Unclosed (past ++ inside) names := by
  cases h with
  | nil h => exact .nil (h.append hb)
  | element h hin =>
    rw [List.append_assoc, List.cons_append]
    exact h.element (hin.append hb)

theorem Balanced.countP_eq (h : Balanced past) :
    past.countP Event.isStart = past.countP Event.isFinish := by
  induction h with
  | nil => rfl
  | text _ ih | cdata _ ih => simpa [Event.isStart, Event.isFinish] using ih
  | element _ _ ihin ih =>
    simp only [List.countP_cons, List.countP_append, Event.isStart, Event.isFinish, ihin, ih,
      Bool.false_eq_true, ↓reduceIte]
    omega

theorem Unclosed.countP_eq (h : Unclosed past names) :
    past.countP Event.isStart = past.countP Event.isFinish + names.length := by
  induction h with
  | nil h => exact h.countP_eq
  | element _ hin ih =>
    simp only [List.countP_cons, List.countP_append, Event.isStart, Event.isFinish, hin.countP_eq, ih,
      List.length_cons, Bool.false_eq_true, ↓reduceIte]
    omega

/-- The names of the start tags that wait for their end tags, in the scopes of these tags. -/
def ScanState.names (state : ScanState) : List ResolvedName :=
  List.zipWith (·.resolveElement ·) state.scopes state.opened

theorem ScanState.names_of_opened {state : ScanState} (ho : state.opened = written :: rest)
    (hl : state.opened.length < state.scopes.length) :
    state.names = state.scope.resolveElement written :: state.close.names ∧
      state.close.opened.length < state.close.scopes.length := by
  obtain ⟨_, scopes, _⟩ := state
  obtain rfl := ho
  cases scopes with
  | nil => cases hl
  | cons scope scopes => exact ⟨rfl, Nat.lt_of_succ_lt_succ hl⟩

theorem Follows.awaits (h : Follows state ahead) (hl : state.opened.length < state.scopes.length) :
    Awaits state.names ahead := by
  induction h with
  | nil => exact .nil
  | text _ ih => exact (ih hl).text
  | cdata _ ih => exact (ih hl).cdata
  | fault => exact .fault
  | start _ ih => exact .start (ih (Nat.succ_lt_succ hl))
  | finish ho _ ih =>
    obtain ⟨hnames, hl⟩ := ScanState.names_of_opened ho hl
    rw [hnames]
    exact .finish (ih hl)

theorem within_events (source : String) : Within source [] (events source) where
  read := ⟨[], rfl, .nil .nil⟩
  awaits := (events_follows source).awaits Nat.one_pos

/-! ### From place to place -/

theorem Within.skip (h : Within source names (event :: ahead)) (hb : Balanced [event])
    (ha : Awaits names ahead) : Within source names ahead where
  read := by
    obtain ⟨past, he, hu⟩ := h.read
    exact ⟨past ++ [event], by rw [he, List.append_assoc]; rfl, hu.append hb⟩
  awaits := ha

theorem Within.text (h : Within source names (.text offset raw :: ahead)) :
    Within source names ahead := by
  cases h.awaits with
  | text ha => exact h.skip Balanced.nil.text ha

theorem Within.cdata (h : Within source names (.cdata offset content :: ahead)) :
    Within source names ahead := by
  cases h.awaits with
  | cdata ha => exact h.skip Balanced.nil.cdata ha

theorem Within.start (h : Within source names (.start offset name tag scope :: ahead)) :
    Within source (name :: names) ahead where
  read := by
    obtain ⟨past, he, hu⟩ := h.read
    exact ⟨_, by rw [he, List.append_assoc]; rfl, hu.element .nil⟩
  awaits := by
    cases h.awaits with
    | start ha => exact ha

/-- An end tag closes the innermost element. -/
theorem Within.finish (h : Within source names (.finish offset name :: ahead)) :
    ∃ outer, names = name :: outer ∧ Within source outer ahead := by
  obtain ⟨⟨past, he, hu⟩, ha⟩ := h
  cases ha with
  | @finish outer _ _ _ ha =>
    refine ⟨outer, rfl, ?_, ha⟩
    cases hu with
    | @element past _ inside offset' _ tag scope hu hin =>
      refine ⟨past ++ .start offset' name tag scope :: (inside ++ [.finish offset name]), ?_,
        hu.append (hin.element .nil)⟩
      rw [he]
      simp

end Xml

namespace Cursor

/-- The cursor is inside the elements of the names, the innermost first, and it is within the limits. -/
structure InStep (source : String) (names : List Xml.ResolvedName) (c : Cursor) : Prop where
  place : Xml.Within source names c.pending
  opened : c.opened = names.map (·.localName)
  depth : names.length ≤ Limits.openElements
  attributes : c.attributes.length ≤ Limits.attributes

/-- The cursor is on the end tag of the innermost of the elements. -/
inductive EndsInnermost (source : String) : List Xml.ResolvedName → Cursor → Prop where
  | intro (hs : InStep source outer d) (hn : d.localName = name.localName) (ha : d.attributes = []) :
      EndsInnermost source (name :: outer) d

theorem InStep.of_pending {c : Cursor} (h : InStep source names c) (hp : c.pending = events) :
    InStep source names (c.before events) :=
  hp ▸ h

theorem InStep.depth_eq {c : Cursor} (h : InStep source names c) : c.depth = names.length := by
  rw [Cursor.depth, h.opened, List.length_map]

theorem InStep.text {c : Cursor} (h : InStep source names (c.before (.text offset raw :: events))) :
    InStep source names (c.before events) :=
  { h with place := h.place.text }

theorem InStep.cdata {c : Cursor}
    (h : InStep source names (c.before (.cdata offset content :: events))) :
    InStep source names (c.before events) :=
  { h with place := h.place.cdata }

theorem InStep.openElement {c i : Cursor}
    (h : InStep source names (c.before (.start offset name tag scope :: events)))
    (hi : (c.before events).openElement offset name tag scope = .ok i) :
    InStep source (name :: names) i := by
  obtain ⟨_, attrs, _, _, hdepth, hcount, rfl⟩ := openElement_eq_ok.1 hi
  have hopened : c.opened = names.map (·.localName) := h.opened
  refine ⟨h.place.start, congrArg (name.localName :: ·) hopened, ?_, hcount⟩
  have hlength : c.opened.length + 1 ≤ Limits.openElements := hdepth
  rwa [hopened, List.length_map] at hlength

theorem InStep.closeElement {c d : Cursor}
    (h : InStep source names (c.before (.finish offset name :: events)))
    (hd : (c.before events).closeElement offset name = .ok d) :
    EndsInnermost source names d := by
  obtain ⟨_, _, rfl⟩ := closeElement_eq_ok.1 hd
  obtain ⟨outer, rfl, hplace⟩ := h.place.finish
  have hopened : c.opened = (name :: outer).map (·.localName) := h.opened
  refine .intro ⟨hplace, ?_, Nat.le_of_succ_le h.depth, Nat.zero_le _⟩ rfl rfl
  exact congrArg List.tail hopened

/-! ### One move -/

/-- How a move from tag to tag ends that has begun inside the elements. -/
inductive Arrives (source : String) (names : List Xml.ResolvedName) : Moved Tag → Prop where
  | start (h : InStep source (name :: names) i) : Arrives source names (.ok .start, i)
  | finish (h : EndsInnermost source names d) : Arrives source names (.ok .finish, d)
  | ended (h : InStep source names d) : Arrives source names (.ok .endOfDocument, d)
  | failed : Arrives source names (.error e, d)

theorem Lands.arrives {c : Cursor} (h : c.Lands events moved)
    (hs : InStep source names (c.before events)) : Arrives source names moved := by
  induction h with
  | ended => exact .ended hs
  | cut | stuck => exact .failed
  | start hi => exact .start (hs.openElement hi)
  | finish hd => exact .finish (hs.closeElement hd)
  | text _ ih => exact ih hs.text
  | cdata _ ih => exact ih hs.cdata

theorem Encloses.endsInnermost {c d : Cursor} (h : c.Encloses nodes d) (hs : InStep source names c) :
    EndsInnermost source names d := by
  induction h generalizing names with
  | finish hp hd => exact (hs.of_pending hp).closeElement hd
  | text hp _ _ ih => exact ih (hs.of_pending hp).text
  | cdata hp _ ih => exact ih (hs.of_pending hp).cdata
  | element hp hi _ _ ihin ih =>
    cases ihin ((hs.of_pending hp).openElement hi) with
    | intro ho => exact ih ho

/-- Elements are skipped up to the end tag behind which no more than `target` are open. -/
theorem endsInnermost_of_skipAmong {c d : Cursor} (ht : target < c.depth)
    (hs : InStep source names (c.before events)) (h : skipAmong target c events = (.ok (), d)) :
    ∃ outer, outer <:+ names ∧ outer.length = target + 1 ∧ EndsInnermost source outer d := by
  induction events generalizing c names with
  | nil =>
    simp only [skipAmong] at h
    split at h
    · next hle => exact absurd ht (Nat.not_lt.2 hle)
    · cases h
  | cons event events ih =>
    have hnames : c.depth = names.length := hs.depth_eq
    cases event with
    | start offset name tag scope =>
      obtain ⟨i, hi, h⟩ := (skipAmong_start_eq_ok ht).1 h
      have hin := hs.openElement hi
      have hdepth : i.depth = names.length + 1 := hin.depth_eq
      obtain ⟨outer, hsuffix, hlength, hd⟩ :=
        ih (by omega) (hin.of_pending (openElement_reads hi).1) h
      refine ⟨outer, ?_, hlength, hd⟩
      rcases List.suffix_cons_iff.1 hsuffix with rfl | hsuffix
      · rw [List.length_cons] at hlength
        omega
      · exact hsuffix
    | finish offset name =>
      obtain ⟨o, ho, h⟩ := (skipAmong_finish_eq_ok ht).1 h
      have hp : o.pending = events := (closeElement_pending ho).1
      cases hs.closeElement ho with
      | @intro outer _ name hout hn ha =>
        have hdepth : o.depth = outer.length := hout.depth_eq
        rw [List.length_cons] at hnames
        by_cases hle : o.depth ≤ target
        · rw [skipAmong_stop hle] at h
          cases h
          refine ⟨name :: outer, List.suffix_refl _, ?_, .intro (hout.of_pending hp) hn ha⟩
          rw [List.length_cons]
          omega
        · obtain ⟨outer', hsuffix, hlength, hd⟩ := ih (Nat.lt_of_not_le hle) (hout.of_pending hp) h
          exact ⟨outer', hsuffix.trans (List.suffix_cons ..), hlength, hd⟩
    | text => exact ih (c := c.before events) ht hs.text ((skipAmong_cons ht).symm.trans h)
    | cdata => exact ih (c := c.before events) ht hs.cdata ((skipAmong_cons ht).symm.trans h)
    | fault => cases (skipAmong_cons ht).symm.trans h

/-- The innermost element is skipped. Outside of all elements nothing is. -/
theorem skipElement_cases {c d : Cursor} (hs : InStep source names c)
    (h : c.skipElement = (.ok (), d)) :
    (c.depth = 0 ∧ d = c) ∨ EndsInnermost source names d := by
  by_cases hdepth : c.depth = 0
  · rw [skipElement, skipAmong_stop (by omega)] at h
    cases h
    exact .inl ⟨hdepth, rfl⟩
  · obtain ⟨outer, hsuffix, hlength, hd⟩ := endsInnermost_of_skipAmong (by omega) hs h
    have hnames := hs.depth_eq
    rw [← hsuffix.eq_of_length (by omega)]
    exact .inr hd

/-! ### Any number of moves -/

/-- The cursor is where it was moved to from before the first tag. No move has failed. -/
inductive Reached (source : String) : Cursor → Prop where
  | start : Reached source (.ofString source)
  | next (h : Reached source c) (hd : c.next = (.ok tag, d)) : Reached source d
  | elementText (h : Reached source c) (hd : c.elementText = (.ok text, d)) : Reached source d
  | skipElement (h : Reached source c) (hd : c.skipElement = (.ok (), d)) : Reached source d

theorem inStep_ofString (source : String) : InStep source [] (.ofString source) where
  place := Xml.within_events source
  opened := rfl
  depth := Nat.zero_le _
  attributes := Nat.zero_le _

theorem InStep.next {c : Cursor} (h : InStep source names c) : Arrives source names c.next :=
  c.next_lands.arrives h

theorem InStep.elementText {text : String} {c d : Cursor} (h : InStep source names c)
    (hd : c.elementText = (.ok text, d)) : EndsInnermost source names d := by
  obtain ⟨nodes, hn, _⟩ := elementText_eq_ok_iff.1 hd
  exact hn.endsInnermost h

theorem EndsInnermost.inStep {d : Cursor} (h : EndsInnermost source names d) :
    ∃ outer, InStep source outer d := by
  cases h with
  | intro hs => exact ⟨_, hs⟩

theorem Reached.inStep {c : Cursor} (h : Reached source c) : ∃ names, InStep source names c := by
  induction h with
  | start => exact ⟨[], inStep_ofString source⟩
  | next _ hd ih =>
    obtain ⟨names, hs⟩ := ih
    have ha := hs.next
    rw [hd] at ha
    cases ha with
    | start hs | ended hs => exact ⟨_, hs⟩
    | finish h => exact h.inStep
  | elementText _ hd ih =>
    obtain ⟨names, hs⟩ := ih
    exact (hs.elementText hd).inStep
  | skipElement _ hd ih =>
    obtain ⟨names, hs⟩ := ih
    rcases skipElement_cases hs hd with ⟨_, rfl⟩ | h
    · exact ⟨names, hs⟩
    · exact h.inStep

/-- From inside an element, `d` is on the end tag of that element. -/
structure Leaves (c d : Cursor) : Prop where
  depth : d.depth + 1 = c.depth
  opened : c.opened = d.localName :: d.opened
  attributes : d.attributes = []

theorem EndsInnermost.leaves {c d : Cursor} (h : EndsInnermost source names d)
    (hs : InStep source names c) : c.Leaves d := by
  cases h with
  | intro hd hn ha =>
    have hopened := hs.opened
    rw [List.map_cons, ← hn, ← hd.opened] at hopened
    exact ⟨(congrArg List.length hopened).symm, hopened, ha⟩

/-- What a cursor has open, however it was moved, are the elements of the document that begin before it
and have not ended, no more than there may be. A start tag is read behind them, and any other tag is
the end tag of the innermost of them; the document ends outside of all. -/
theorem reached_keeps_account {c : Cursor} (h : Reached source c) :
    (∃ past names, Xml.events source = past ++ c.pending ∧ Xml.Unclosed past names ∧
      c.opened = names.map (·.localName) ∧
      past.countP Xml.Event.isStart = past.countP Xml.Event.isFinish + c.depth) ∧
    c.depth ≤ 64 ∧
    (∀ d, c.next = (.ok .start, d) →
      d.opened = d.localName :: c.opened ∧ d.attributes.length ≤ 32) ∧
    (∀ d, c.next = (.ok .finish, d) → c.Leaves d) ∧
    (∀ d, c.next = (.ok .endOfDocument, d) → c.depth = 0 ∧ d.depth = 0) ∧
    (∀ text d, c.elementText = (.ok text, d) → c.Leaves d) ∧
    ∀ d, c.skipElement = (.ok (), d) → if c.depth = 0 then d = c else c.Leaves d := by
  obtain ⟨names, hs⟩ := h.inStep
  have hdepth := hs.depth_eq
  refine ⟨?_, hdepth ▸ hs.depth, ?_, ?_, ?_, ?_, ?_⟩
  · obtain ⟨past, he, hu⟩ := hs.place.read
    exact ⟨past, names, he, hu, hs.opened, hdepth ▸ hu.countP_eq⟩
  · intro d hd
    have ha := hs.next
    rw [hd] at ha
    cases ha with
    | start hi => exact ⟨(next_start_moves hd).1, hi.attributes⟩
  · intro d hd
    have ha := hs.next
    rw [hd] at ha
    cases ha with
    | finish hd => exact hd.leaves hs
  · intro d hd
    obtain ⟨hc, hd⟩ := opened_eq_nil_of_next hd
    exact ⟨congrArg List.length hc, congrArg List.length hd⟩
  · intro text d hd
    exact (hs.elementText hd).leaves hs
  · intro d hd
    rcases skipElement_cases hs hd with ⟨hzero, rfl⟩ | hd
    · rw [if_pos hzero]
    · have hleaves := hd.leaves hs
      have hpos : c.depth ≠ 0 := hleaves.depth ▸ Nat.succ_ne_zero _
      rw [if_neg hpos]
      exact hleaves

namespace NestedSample

def source : String := "<a><b/>text</a>"

/-- The cursor on the start tag of the inner element. -/
def inner : Cursor := (ofString source).next.2.next.2

theorem reached : Reached source inner := by
  have hroot : (ofString source).next = (.ok .start, (ofString source).next.2) :=
    Prod.ext (by cbv) rfl
  have hinner : (ofString source).next.2.next = (.ok .start, inner) := Prod.ext (by cbv) rfl
  exact .next (.next .start hroot) hinner

theorem opened : inner.opened = ["b", "a"] := by cbv

theorem skipped : inner.skipElement.1 = .ok () := by cbv

theorem read : inner.skipElement.2.elementText.1 = .ok "text" := by cbv

end NestedSample

theorem reached_keeps_account_nested :
    NestedSample.inner.opened = ["b", "a"] ∧ NestedSample.inner.depth ≤ 64 ∧
      ∃ d o, NestedSample.inner.skipElement = (.ok (), d) ∧ NestedSample.inner.Leaves d ∧
        d.elementText = (.ok "text", o) ∧ d.Leaves o := by
  have hskip := Prod.ext NestedSample.skipped rfl
  have hread := Prod.ext NestedSample.read rfl
  obtain ⟨_, hdepth, _, _, _, _, hskips⟩ := reached_keeps_account NestedSample.reached
  obtain ⟨_, _, _, _, _, htexts, _⟩ := reached_keeps_account (NestedSample.reached.skipElement hskip)
  have hnone : NestedSample.inner.depth ≠ 0 := by
    rw [depth, NestedSample.opened]
    decide
  have hleaves := hskips _ hskip
  rw [if_neg hnone] at hleaves
  exact ⟨NestedSample.opened, hdepth, _, _, hskip, hleaves, hread, htexts _ _ hread⟩

end Cursor

end ManagementScript
