import ManagementScript.Proofs.Result
import ManagementScript.Proofs.Tree.Balance

/-!
How reading stops at the end of a document: only where no element is open is the end met as such, and
otherwise it is an error that names the innermost open element.
-/

namespace ManagementScript

namespace Cursor

/-- The document has ended in the middle of the innermost element that is open at `d`, and `e` says
so. At `c`, where reading began, no more elements were open. -/
structure EndsEarly (c : Cursor) (e : ReadError) (d : Cursor) : Prop where
  error : e = .unexpectedEnd (d.opened.headD d.localName) c.lines.finish
  pending : d.pending = []
  opened : c.opened <:+ d.opened

theorem EndsEarly.of_inside {c i d : Cursor} (h : i.EndsEarly e d) (hl : i.lines = c.lines)
    (ho : c.opened <:+ i.opened) : c.EndsEarly e d where
  error := hl ▸ h.error
  pending := h.pending
  opened := ho.trans h.opened

/-- Something is wrong with a tag or with a reference, rather than with what stands where. -/
def OfMarkup : ReadError → Prop
  | .malformed .. | .nestingTooDeep .. | .tooManyAttributes .. => True
  | .strayContent .. | .unexpectedEnd .. => False

theorem OfMarkup.ne_unexpectedEnd (h : OfMarkup e) (innermost : String) (q : Position) :
    e ≠ .unexpectedEnd innermost q := by
  rintro rfl
  exact h

theorem ofMarkup_namespaceOf (h : namespaceOf p name = .error e) : OfMarkup e := by
  rw [namespaceOf] at h
  cases hn : name.namespaceUri with
  | ok uri =>
    rw [hn] at h
    cases h
  | error label =>
    rw [hn] at h
    cases h
    exact trivial

theorem ofMarkup_readAttribute (h : readAttribute p scope a = .error e) : OfMarkup e := by
  rcases bind_eq_error_iff.1 h with h | ⟨uri, _, h⟩
  · exact ofMarkup_namespaceOf h
  · split at h
    · cases h
      exact trivial
    · cases h

theorem ofMarkup_readAttributes (h : readAttributes p tag scope = .error e) : OfMarkup e := by
  rw [readAttributes] at h
  rcases bind_eq_error_iff.1 h with h | ⟨attributes, _, h⟩
  · obtain ⟨a, _, h⟩ := mem_of_mapM_error h
    exact ofMarkup_readAttribute h
  · split at h
    · cases h
      exact trivial
    · cases h

theorem ofMarkup_openElement {c : Cursor} (h : c.openElement offset name tag scope = .error e) :
    OfMarkup e := by
  rw [openElement] at h
  rcases bind_eq_error_iff.1 h with h | ⟨uri, _, h⟩
  · exact ofMarkup_namespaceOf h
  split at h
  · cases h
    exact trivial
  rcases bind_eq_error_iff.1 h with h | ⟨attributes, _, h⟩
  · exact ofMarkup_readAttributes h
  split at h
  · cases h
    exact trivial
  · cases h

theorem ofMarkup_closeElement {c : Cursor} (h : c.closeElement offset name = .error e) :
    OfMarkup e := by
  rw [closeElement] at h
  rcases bind_eq_error_iff.1 h with h | ⟨uri, _, h⟩
  · exact ofMarkup_namespaceOf h
  · cases h

theorem ofMarkup_readText {c : Cursor} (h : c.readText offset raw = .error e) : OfMarkup e := by
  rw [readText] at h
  cases hr : Xml.resolveReferences raw with
  | ok content =>
    rw [hr] at h
    cases h
  | error defect =>
    rw [hr] at h
    cases h
    exact trivial

theorem stray?_ne_unexpectedEnd {c : Cursor} :
    c.stray? offset content ≠ some (.unexpectedEnd innermost q) := by
  simp only [stray?]
  split
  · simp
  · simp [ReadError.stray]

/-- Where a move from tag to tag leads, when `ahead` is not read yet. -/
inductive Lands (c : Cursor) : List Xml.Event → Moved Tag → Prop where
  | ended (h : c.opened = []) : Lands c [] (.ok .endOfDocument, c.before [])
  | cut (h : c.opened ≠ []) : Lands c [] (.error c.unexpectedEnd, c.before [])
  | stuck (h : ∀ innermost q, e ≠ .unexpectedEnd innermost q) :
      Lands c (event :: ahead) (.error e, c.before ahead)
  | start (h : (c.before ahead).openElement offset name tag scope = .ok i) :
      Lands c (.start offset name tag scope :: ahead) (.ok .start, i)
  | finish (h : (c.before ahead).closeElement offset name = .ok d) :
      Lands c (.finish offset name :: ahead) (.ok .finish, d)
  | text (h : Lands c ahead moved) : Lands c (.text offset raw :: ahead) moved
  | cdata (h : Lands c ahead moved) : Lands c (.cdata offset content :: ahead) moved

theorem nextAmong_lands (c : Cursor) (ahead : List Xml.Event) :
    c.Lands ahead (c.nextAmong ahead) := by
  induction ahead with
  | nil =>
    simp only [nextAmong]
    split
    · next h => exact .ended (List.isEmpty_iff.1 h)
    · next h => exact .cut fun he => h (List.isEmpty_iff.2 he)
  | cons event ahead ih =>
    cases event with
    | start offset name tag scope =>
      change c.Lands _ (settle _ _ ((c.before ahead).openElement offset name tag scope))
      cases h : (c.before ahead).openElement offset name tag scope with
      | ok i => exact .start h
      | error e => exact .stuck (ofMarkup_openElement h).ne_unexpectedEnd
    | finish offset name =>
      change c.Lands _ (settle _ _ ((c.before ahead).closeElement offset name))
      cases h : (c.before ahead).closeElement offset name with
      | ok d => exact .finish h
      | error e => exact .stuck (ofMarkup_closeElement h).ne_unexpectedEnd
    | text offset raw =>
      simp only [nextAmong]
      split
      · next h => exact .stuck (ofMarkup_readText h).ne_unexpectedEnd
      split
      · next h => exact .stuck fun _ _ he => stray?_ne_unexpectedEnd (he ▸ h)
      · exact ih.text
    | cdata offset content =>
      simp only [nextAmong]
      split
      · next h => exact .stuck fun _ _ he => stray?_ne_unexpectedEnd (he ▸ h)
      · exact ih.cdata
    | fault offset defect => exact .stuck (by simp [broken])

theorem next_lands (c : Cursor) : c.Lands c.pending c.next := c.nextAmong_lands c.pending

theorem Lands.endsEarly {c d : Cursor}
    (h : c.Lands ahead (.error (.unexpectedEnd innermost q), d)) :
    c.EndsEarly (.unexpectedEnd innermost q) d := by
  generalize hm : (Except.error (ReadError.unexpectedEnd innermost q), d) = moved at h
  induction h with
  | cut =>
    cases hm
    exact ⟨rfl, rfl, List.suffix_refl _⟩
  | stuck hne =>
    cases hm
    exact absurd rfl (hne _ _)
  | ended | start | finish => cases hm
  | text _ ih | cdata _ ih => exact ih hm

theorem Lands.opened_eq_nil {c d : Cursor} (h : c.Lands ahead (.ok .endOfDocument, d)) :
    c.opened = [] ∧ d.opened = [] := by
  generalize hm : (Except.ok Tag.endOfDocument, d) = moved at h
  induction h with
  | ended ho =>
    cases hm
    exact ⟨ho, ho⟩
  | cut | stuck | start | finish => cases hm
  | text _ ih | cdata _ ih => exact ih hm

theorem Lands.start_moves {c i : Cursor} (h : c.Lands ahead (.ok .start, i)) :
    i.opened = i.localName :: c.opened ∧ i.lines = c.lines := by
  generalize hm : (Except.ok Tag.start, i) = moved at h
  induction h with
  | start hi =>
    cases hm
    obtain ⟨ho, hn, hl⟩ := openElement_moves hi
    exact ⟨by rw [ho, hn]; rfl, hl⟩
  | ended | cut | stuck | finish => cases hm
  | text _ ih | cdata _ ih => exact ih hm

theorem endsEarly_next {c d : Cursor} (h : c.next = (.error (.unexpectedEnd innermost q), d)) :
    c.EndsEarly (.unexpectedEnd innermost q) d :=
  Lands.endsEarly (h ▸ c.next_lands)

theorem opened_eq_nil_of_next {c d : Cursor} (h : c.next = (.ok .endOfDocument, d)) :
    c.opened = [] ∧ d.opened = [] :=
  Lands.opened_eq_nil (h ▸ c.next_lands)

theorem next_start_moves {c i : Cursor} (h : c.next = (.ok .start, i)) :
    i.opened = i.localName :: c.opened ∧ i.lines = c.lines :=
  Lands.start_moves (h ▸ c.next_lands)

theorem endsEarly_elementText {c d : Cursor}
    (h : c.elementText = (.error (.unexpectedEnd innermost q), d)) :
    c.EndsEarly (.unexpectedEnd innermost q) d := by
  have htext (text : String) (ahead : List Xml.Event)
      (h : c.textAmong text ahead = (.error (.unexpectedEnd innermost q), d)) :
      c.EndsEarly (.unexpectedEnd innermost q) d := by
    induction ahead generalizing text with
    | nil =>
      cases h
      exact ⟨rfl, rfl, List.suffix_refl _⟩
    | cons event ahead ih =>
      cases event with
      | start => cases h
      | finish offset name =>
        simp only [textAmong, settle] at h
        split at h
        · cases h
        · next he =>
          cases h
          exact absurd rfl ((ofMarkup_closeElement he).ne_unexpectedEnd _ _)
      | text offset raw =>
        simp only [textAmong] at h
        split at h
        · next he =>
          cases h
          exact absurd rfl ((ofMarkup_readText he).ne_unexpectedEnd _ _)
        · exact ih _ h
      | cdata offset content => exact ih _ h
      | fault => cases h
  exact htext _ _ h

end Cursor

end ManagementScript
