import ManagementScript.Proofs.Tree.Openings
import ManagementScript.Proofs.Tree.Steps

/-!
Where a cursor tells that it is. However it is moved, its place is found from the end of the tag it is
on, which is the last one that it has read.
-/

namespace ManagementScript

namespace Xml

/-- What of a name stands behind its first colon, or all of it. -/
def localPart (name : List Char) : List Char :=
  match name.dropWhile (· != ':') with
  | [] => name
  | _ :: rest => rest

theorem localName_resolveElement (scope : Scope) (name : List Char) :
    (scope.resolveElement name).localName = String.ofList (localPart name) := by
  have hname := @List.takeWhile_append_dropWhile _ (· != ':') name
  simp only [Scope.resolveElement, Scope.resolve, List.span_eq_takeWhile_dropWhile, localPart]
  cases hrest : name.dropWhile (· != ':') with
  | nil =>
    rw [hrest, List.append_nil] at hname
    simp only [hname]
  | cons => rfl

/-- The last of the parts that are tags. -/
def lastTag? (passed : List Part) : Option Part := passed.reverse.find? (·.tagName?.isSome)

theorem lastTag?_concat (passed : List Part) (p : Part) :
    lastTag? (passed ++ [p]) = if p.tagName?.isSome then some p else lastTag? passed := by
  rw [lastTag?, List.reverse_append, List.reverse_singleton, List.singleton_append, List.find?_cons]
  cases p.tagName?.isSome with
  | true => rfl
  | false => rfl

end Xml

namespace Cursor

/-- The first parts of the document have been read, and what is read from the others is before the
cursor. -/
structure HasRead (source : String) (passed : List Xml.Part) (c : Cursor) : Prop where
  lines : c.lines = .ofString source
  ahead : ∃ ahead, Xml.readings source = passed ++ ahead ∧
    List.Forall₂ (Xml.Part.Gives (Xml.locate source)) ahead c.pending

theorem hasRead_ofString (source : String) : (ofString source).HasRead source [] :=
  ⟨rfl, _, rfl, Xml.events_given source⟩

theorem HasRead.step {c : Cursor} (h : c.HasRead source passed) (hp : c.pending = event :: events) :
    ∃ p : Xml.Part, p.Gives (Xml.locate source) event ∧
      (c.before events).HasRead source (passed ++ [p]) := by
  obtain ⟨ahead, he, hgiven⟩ := h.ahead
  rw [hp] at hgiven
  cases hgiven with
  | @cons p _ ahead _ hgives hgiven =>
    exact ⟨p, hgives, h.lines, ahead, by rw [he, List.append_assoc]; rfl, hgiven⟩

/-- Wherever a cursor has been moved to, it has read the parts that come first. -/
theorem Visited.hasRead {c : Cursor} (h : Visited source c) : ∃ passed, c.HasRead source passed := by
  obtain ⟨hlines, past, hpast⟩ := h.passes
  have hgiven := Xml.events_given source
  change past ++ c.pending = Xml.events source at hpast
  rw [← hpast] at hgiven
  exact ⟨_, hlines, _, (List.take_append_drop past.length _).symm, List.forall₂_drop_append _ _ _ hgiven⟩

/-- What a cursor tells of the last tag that has been read. -/
inductive Tells (source : String) (c : Cursor) : Option Xml.Part → Prop where
  | unread (hc : c.position = .unread) : Tells source c none
  | tag {p : Xml.Part} (hp : p.tagName? = some name)
      (hn : c.localName = String.ofList (Xml.localPart name))
      (hc : c.position =
        (LineIndex.ofString source).positionAt (Xml.locate source (Text.byteCount p.behind))) :
      Tells source c (some p)

theorem Tells.text {c : Cursor} {p : Xml.Part} (h : c.Tells source (Xml.lastTag? passed))
    (hp : p.tagName? = none) (events : List Xml.Event) :
    (c.before events).Tells source (Xml.lastTag? (passed ++ [p])) := by
  rw [Xml.lastTag?_concat, hp]
  cases hlast : Xml.lastTag? passed with
  | none =>
    rw [hlast] at h
    cases h with
    | unread hc => exact .unread hc
  | some q =>
    rw [hlast] at h
    cases h with
    | tag hq hn hc => exact .tag hq hn hc

theorem HasRead.tells {c d : Cursor} {p : Xml.Part} {scope : Xml.Scope}
    (h : c.HasRead source (passed ++ [p])) (hp : p.tagName? = some name)
    (hpending : d.pending = c.pending) (hlines : d.lines = c.lines)
    (hn : d.localName = (scope.resolveElement name).localName)
    (hd : d.position = c.lines.positionAt (Xml.locate source (Text.byteCount p.behind))) :
    d.HasRead source (passed ++ [p]) ∧ d.Tells source (Xml.lastTag? (passed ++ [p])) := by
  refine ⟨⟨hlines.trans h.lines, hpending ▸ h.ahead⟩, ?_⟩
  rw [Xml.lastTag?_concat, hp]
  refine .tag hp ?_ (h.lines ▸ hd)
  rw [hn, Xml.localName_resolveElement]

theorem Reached.exists_tells {c : Cursor} (h : Reached source c) :
    ∃ passed, c.HasRead source passed ∧ c.Tells source (Xml.lastTag? passed) := by
  refine h.invariant (P := fun c => ∃ passed, c.HasRead source passed ∧
    c.Tells source (Xml.lastTag? passed)) ⟨[], hasRead_ofString source, .unread rfl⟩ ?_
  rintro c d ⟨passed, hread, htells⟩ hstep
  -- Text is passed over and keeps the last tag; a tag that is read becomes the last one.
  cases hstep with
  | text hp =>
    obtain ⟨p, hgives, hread⟩ := hread.step hp
    cases hgives with
    | text hform => exact ⟨_, hread, htells.text (by rw [Xml.Part.tagName?, hform]) _⟩
  | cdata hp =>
    obtain ⟨p, hgives, hread⟩ := hread.step hp
    cases hgives with
    | cdata hform => exact ⟨_, hread, htells.text (by rw [Xml.Part.tagName?, hform]) _⟩
  | start hp hi =>
    obtain ⟨p, hgives, hread⟩ := hread.step hp
    obtain ⟨uri, attrs, _, _, _, _, rfl⟩ := openElement_eq_ok.1 hi
    cases hgives with
    | start hname => exact ⟨_, hread.tells hname rfl rfl rfl rfl⟩
  | finish hp hd =>
    obtain ⟨p, hgives, hread⟩ := hread.step hp
    obtain ⟨uri, _, rfl⟩ := closeElement_eq_ok.1 hd
    cases hgives with
    | finish hname => exact ⟨_, hread.tells hname rfl rfl rfl rfl⟩

/-! ### The tag that a cursor is on -/

/-- The parts of the document that the cursor has read. -/
def passed (source : String) (c : Cursor) : List Xml.Part :=
  (Xml.readings source).take ((Xml.readings source).length - c.pending.length)

/-- The tag that the cursor is on: the last one that it has read. -/
def tag? (source : String) (c : Cursor) : Option Xml.Part := Xml.lastTag? (c.passed source)

theorem HasRead.passed_eq {c : Cursor} {passed : List Xml.Part} (h : c.HasRead source passed) :
    c.passed source = passed := by
  obtain ⟨ahead, he, hgiven⟩ := h.ahead
  rw [Cursor.passed, he, List.length_append, hgiven.length_eq, Nat.add_sub_cancel, List.take_left']
  rfl

theorem Reached.tells {c : Cursor} (h : Reached source c) : c.Tells source (c.tag? source) := by
  obtain ⟨passed, hread, htells⟩ := h.exists_tells
  rwa [tag?, hread.passed_eq]

/-- A tag is written in angle brackets. -/
theorem exists_inside {p : Xml.Part} (h : p.tagName? = some name) :
    ∃ content, p.form.written = '<' :: (content ++ ['>']) := by
  cases hform : p.form with
  | markup content => exact ⟨content, rfl⟩
  | run | broken =>
    rw [Xml.Part.tagName?, hform] at h
    cases h

theorem exists_of_tag? {c : Cursor} (h : c.tag? source = some p) :
    ∃ rest, source.toList = Xml.byteOrderMark source.toList ++ (p.behind ++ rest) :=
  Xml.exists_behind_of_reading
    (List.mem_of_mem_take (List.mem_reverse.1 (List.mem_of_find?_eq_some h)))

/-- The place of a cursor is that of the last `<` before the end of the tag it is on, counted without a
byte order mark. It is where the tag begins if there is no other `<` up to there, and there is none
before the first tag. -/
theorem reached_located {c : Cursor} (h : Reached source c) :
    (c.tag? source = none → c.position = .unread) ∧
    ∀ p, c.tag? source = some p →
      (∃ name, p.tagName? = some name ∧ c.localName = String.ofList (Xml.localPart name)) ∧
      (∃ front, Xml.LastOpening source.toList (Text.byteCount p.behind) front ∧
        c.position = .behind front) ∧
      (c.position = .behind (Xml.byteOrderMark source.toList ++ p.front) ↔
        ∃ seen unseen, p.form.written = '<' :: (seen ++ unseen) ∧
          Text.byteCount unseen = Text.byteCount (Xml.byteOrderMark source.toList) ∧ '<' ∉ seen) := by
  have htells := h.tells
  refine ⟨fun hnone => ?_, fun p hp => ?_⟩
  · rw [hnone] at htells
    cases htells with
    | unread hc => exact hc
  · rw [hp] at htells
    cases htells with
    | @tag name _ hname hn hc =>
      obtain ⟨rest, hs⟩ := exists_of_tag? hp
      obtain ⟨content, hwritten⟩ := exists_inside hname
      have hbehind : p.behind = p.front ++ '<' :: (content ++ ['>']) := by
        rw [Xml.Part.behind, hwritten]
      have hpos : 0 < Text.byteCount p.behind := hbehind ▸ Xml.byteCount_opening_pos ..
      obtain ⟨front, back, hlast, hfront, hlocate⟩ := Xml.exists_lastOpening source hpos
      have hposition : c.position = .behind front := by
        rw [hc, hlocate, LineIndex.positionAt_behind hfront]
      refine ⟨⟨name, hname, hn⟩, ⟨front, hlast, hposition⟩, ?_⟩
      have hstart : source.toList = Xml.byteOrderMark source.toList ++
          (p.front ++ '<' :: ((content ++ ['>']) ++ rest)) := by
        rw [hbehind] at hs
        simpa using hs
      have hiff := Xml.locate_eq_iff hstart
      rw [← hbehind, hlocate] at hiff
      rw [← List.append_assoc] at hstart
      rw [hposition, Position.behind_eq_iff (hfront.symm.trans hstart), hiff, hwritten]
      simp only [List.cons.injEq, true_and]

namespace PlainTag

def source : String := "<a>\n  <b c='>'/>\n</a>"

/-- The cursor on the end of the inner element, which is written as one tag. -/
def cursor : Cursor := (ofString source).next.2.next.2.next.2

theorem reached : Reached source cursor := by
  have hroot : (ofString source).next.1 = .ok .start := by cbv
  have hstart : (ofString source).next.2.next.1 = .ok .start := by cbv
  have hfinish : (ofString source).next.2.next.2.next.1 = .ok .finish := by cbv
  exact .next (.next (.next .start (Prod.ext hroot rfl)) (Prod.ext hstart rfl)) (Prod.ext hfinish rfl)

def tag : Xml.Part :=
  ⟨"<a>".toList, "\n  ".toList, .markup "b c='>'/".toList (.startTag ⟨['b'], " c='>'".toList⟩ true)⟩

theorem cursor_tag : cursor.tag? source = some tag := by cbv

end PlainTag

theorem reached_located_plain :
    PlainTag.cursor.localName = "b" ∧ PlainTag.cursor.position = .behind "<a>\n  ".toList := by
  obtain ⟨⟨name, hname, hlocal⟩, -, hlocated⟩ :=
    (reached_located PlainTag.reached).2 PlainTag.tag PlainTag.cursor_tag
  cases hname
  exact ⟨hlocal, hlocated.2 ⟨"b c='>'/>".toList, [], rfl, rfl, by decide⟩⟩

namespace QuotedOpening

/-- A document of one tag, with a `<` in the value of its attribute. -/
def source : String := "<a b='<'/>"

def cursor : Cursor := (ofString source).next.2

theorem reached : Reached source cursor :=
  .next .start (Prod.ext (show (ofString source).next.1 = .ok .start by cbv) rfl)

def tag : Xml.Part := ⟨[], [], .markup "a b='<'/".toList (.startTag ⟨['a'], " b='<'".toList⟩ true)⟩

theorem cursor_tag : cursor.tag? source = some tag := by cbv

theorem position : cursor.position = ⟨6, 1, 7⟩ := by cbv

end QuotedOpening

/-- A tag is not found at its beginning if another `<` stands in it. -/
theorem not_located_at_start :
    ¬∀ source c p, Reached source c → c.tag? source = some p →
      c.position = .behind (Xml.byteOrderMark source.toList ++ p.front) := by
  intro h
  have hstart := h _ _ _ QuotedOpening.reached QuotedOpening.cursor_tag
  rw [QuotedOpening.position] at hstart
  exact absurd hstart (by decide)

end Cursor

end ManagementScript
