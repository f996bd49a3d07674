import ManagementScript.Proofs.Tree.Omission

/-!
Documents that differ in the character data between their tags. Where it is white space, more or less of
it, cut in whatever way, makes no difference to a cursor that moves from tag to tag or skips elements; in
the tree before the cursor only the texts that are white space differ.
-/

namespace ManagementScript

namespace Node

/-- In an element of the kind, the nodes on the right are those on the left with other white space between
the elements, and so inside these. The texts of a password are the same. -/
inductive Respaced : ElementName → List Node → List Node → Prop where
  | nil : Respaced kind [] []
  | texts {texts texts' : List String}
      (hb : (∀ t ∈ texts, Text.trimmed t = "") → ∀ t ∈ texts', Text.trimmed t = "")
      (hk : kind = .password → texts' = texts) (h : Respaced kind nodes nodes') :
      Respaced kind (texts.map .text ++ nodes) (texts'.map .text ++ nodes')
  | element (hin : Respaced (.ofString name) inside inside') (h : Respaced kind nodes nodes') :
      Respaced kind (.element uri name attributes inside :: nodes)
        (.element uri name attributes inside' :: nodes')

theorem filterMap_text?_texts (texts : List String) (nodes : List Node) :
    (texts.map Node.text ++ nodes).filterMap text? = texts ++ nodes.filterMap text? := by
  simp [List.filterMap_append, Function.comp_def]

theorem filterMap_element?_texts (texts : List String) (nodes : List Node) :
    (texts.map Node.text ++ nodes).filterMap element? = nodes.filterMap element? := by
  simp [List.filterMap_append, Function.comp_def]

namespace Respaced

theorem blank (h : Respaced kind nodes nodes') (hb : ∀ t ∈ nodes.filterMap text?, Text.trimmed t = "") :
    ∀ t ∈ nodes'.filterMap text?, Text.trimmed t = "" := by
  induction h with
  | nil => exact hb
  | texts htexts _ _ ih =>
    rw [filterMap_text?_texts] at hb ⊢
    obtain ⟨hfront, hback⟩ := List.forall_mem_append.1 hb
    exact List.forall_mem_append.2 ⟨htexts hfront, ih hback⟩
  | element _ _ _ ih => exact ih hb

theorem password (h : Respaced kind nodes nodes') (hk : kind = .password) :
    nodes'.filterMap text? = nodes.filterMap text? := by
  induction h with
  | nil => rfl
  | texts _ htexts _ ih => rw [filterMap_text?_texts, filterMap_text?_texts, htexts hk, ih hk]
  | element _ _ _ ih => exact ih hk

end Respaced

end Node

namespace Element

/-- The elements have the same tag, and the same inside but for white space. -/
structure Respaced (e e' : Element) : Prop where
  tag : e' = { e with content := e'.content }
  inside : Node.Respaced e.kind e.content e'.content

theorem Respaced.blank {e e' : Element} (h : e.Respaced e') (hb : e.IsBlank) : e'.IsBlank :=
  h.inside.blank hb

theorem Respaced.text_eq {e e' : Element} (h : e.Respaced e') (hk : e.kind = .password) :
    e'.text = e.text :=
  congrArg String.join (h.inside.password hk)

end Element

namespace Xml

namespace Event

/-- The text that character data stands for, if it can be read. -/
def text? : Event → Option String
  | .text _ raw => (resolveReferences raw).toOption
  | .cdata _ content => some (String.ofList content)
  | .start .. | .finish .. | .fault .. => none

/-- Character data that stands for white space. -/
def IsBlank (event : Event) : Prop := ∃ t, event.text? = some t ∧ Text.trimmed t = ""

/-- The same tag, in which the same attributes may be written in another way. -/
inductive Rewrites : Event → Event → Prop where
  | start (h : tag'.attributes = tag.attributes) :
      Rewrites (.start offset name tag scope) (.start offset name tag' scope)
  | finish : Rewrites (.finish offset name) (.finish offset name)
  | fault : Rewrites (.fault offset defect) (.fault offset defect)

theorem Rewrites.isTag {event event' : Event} (h : event.Rewrites event') :
    ¬event.IsText ∧ ¬event'.IsText := by
  cases h <;> exact ⟨id, id⟩

theorem Rewrites.symm {event event' : Event} (h : event.Rewrites event') : event'.Rewrites event := by
  cases h with
  | start h => exact .start h.symm
  | finish => exact .finish
  | fault => exact .fault

theorem Rewrites.unplaced {event event' : Event} (h : event.Rewrites event') :
    event.unplaced.Rewrites event'.unplaced := by
  cases h with
  | start h => exact .start h
  | finish => exact .finish
  | fault => exact .fault

theorem rewrites_self {event : Event} (h : ¬event.IsText) : event.Rewrites event := by
  cases event with
  | text | cdata => exact absurd trivial h
  | start => exact .start rfl
  | finish => exact .finish
  | fault => exact .fault

/-- The names of the elements that are open behind the event, the innermost first. -/
def openAfter (opened : List String) : Event → List String
  | .start _ name _ _ => name.localName :: opened
  | .finish .. => opened.tail
  | .text .. | .cdata .. | .fault .. => opened

end Event

/-- The innermost of the open elements is a password. -/
def InPassword (opened : List String) : Prop :=
  opened.head?.map .ofString = some ElementName.password

/-- Character data inside the open elements that may stand in the place of other character data. -/
structure Respaces (opened : List String) (texts texts' : List Event) : Prop where
  isText : ∀ event ∈ texts, event.IsText
  isText' : ∀ event ∈ texts', event.IsText
  readable : (∀ event ∈ texts, event.text?.isSome) → ∀ event ∈ texts', event.text?.isSome
  blank : (∀ event ∈ texts, event.IsBlank) → ∀ event ∈ texts', event.IsBlank
  password : InPassword opened → texts' = texts

/-- The events on the right are those on the left with other character data between the tags. The
attributes of a tag are the same, but may be written in another way. -/
inductive Respaced : List String → List Event → List Event → Prop where
  | last (h : Respaces opened texts texts') : Respaced opened texts texts'
  | tag (h : Respaces opened texts texts') (ht : event.Rewrites event')
      (hrest : Respaced (event.openAfter opened) es es') :
      Respaced opened (texts ++ event :: es) (texts' ++ event' :: es')

theorem Respaces.same (h : ∀ event ∈ texts, event.IsText) : Respaces opened texts texts :=
  ⟨h, h, id, id, fun _ => rfl⟩

theorem Respaces.append (h : Respaces opened front front') (h' : Respaces opened back back') :
    Respaces opened (front ++ back) (front' ++ back') where
  isText := List.forall_mem_append.2 ⟨h.isText, h'.isText⟩
  isText' := List.forall_mem_append.2 ⟨h.isText', h'.isText'⟩
  readable hr := by
    obtain ⟨hfront, hback⟩ := List.forall_mem_append.1 hr
    exact List.forall_mem_append.2 ⟨h.readable hfront, h'.readable hback⟩
  blank hb := by
    obtain ⟨hfront, hback⟩ := List.forall_mem_append.1 hb
    exact List.forall_mem_append.2 ⟨h.blank hfront, h'.blank hback⟩
  password hk := by rw [h.password hk, h'.password hk]

namespace Respaced

theorem behind_texts (h : Respaces opened texts texts') (hrest : Respaced opened es es') :
    Respaced opened (texts ++ es) (texts' ++ es') := by
  cases hrest with
  | last h' => exact .last (h.append h')
  | tag h' ht hrest =>
    rw [← List.append_assoc, ← List.append_assoc]
    exact .tag (h.append h') ht hrest

theorem cons (event : Event) (h : Respaced (event.openAfter opened) es es') :
    Respaced opened (event :: es) (event :: es') := by
  have htext (ht : event.IsText) (hsame : event.openAfter opened = opened) :
      Respaced opened (event :: es) (event :: es') :=
    behind_texts (.same (List.forall_mem_singleton.2 ht)) (hsame ▸ h)
  have hnone : Respaces opened [] [] := .same (List.forall_mem_nil _)
  cases event with
  | text | cdata => exact htext trivial rfl
  | start | finish | fault => exact .tag hnone (Event.rewrites_self id) h

theorem append (past : List Event) (h : Respaced (past.foldl Event.openAfter opened) es es') :
    Respaced opened (past ++ es) (past ++ es') := by
  induction past generalizing opened with
  | nil => exact h
  | cons event past ih => exact cons event (ih h)

theorem refl (opened : List String) (es : List Event) : Respaced opened es es := by
  have h : Respaced opened (es ++ []) (es ++ []) := append es (.last (.same (List.forall_mem_nil _)))
  rwa [List.append_nil] at h

end Respaced

end Xml

namespace Cursor

/-! ### Behind character data -/

/-- The cursor behind the next `n` events, none of which it moves over. -/
def behind (c : Cursor) (n : Nat) : Cursor := c.before (c.pending.drop n)

theorem marks_behind {c : Cursor} (hm : c.marks = texts ++ more) :
    (c.behind texts.length).marks = more := by
  have hdrop : (c.behind texts.length).marks = c.marks.drop texts.length := List.map_drop
  rw [hdrop, hm, List.drop_left]

theorem behind_cons {c : Cursor} (hp : c.pending = event :: events) (n : Nat) :
    c.behind (n + 1) = (c.before events).behind n := by
  rw [behind, hp, List.drop_succ_cons]
  rfl

/-- A move goes over character data exactly if it is white space. -/
theorem next_behind_text {c : Cursor} {event : Xml.Event} (ht : event.IsText)
    (hp : c.pending = event.placed offset :: events) :
    (event.IsBlank → c.next = (c.before events).next) ∧
      ∀ tag i, c.next = (.ok tag, i) → event.IsBlank := by
  cases event with
  | text _ raw =>
    apply And.intro
    · intro hb
      obtain ⟨content, hread, hb⟩ := hb
      exact next_text hp (readText_eq_ok.2 (toOption_eq_some_iff.1 hread)) hb
    · intro tag i hi
      obtain ⟨content, hread, hb⟩ := readText_of_next hp hi
      exact ⟨content, toOption_eq_some_iff.2 hread, hb⟩
  | cdata _ content =>
    apply And.intro
    · intro hb
      obtain ⟨_, hread, hb⟩ := hb
      cases hread
      exact next_cdata hp hb
    · intro tag i hi
      exact ⟨_, rfl, next_cdata_eq_ok hp hi⟩
  | start | finish | fault => exact ht.elim

/-- It goes over a row of them exactly if all are white space. -/
theorem next_behind {c : Cursor} (ht : ∀ event ∈ texts, event.IsText) (hm : c.marks = texts ++ more) :
    ((∀ event ∈ texts, event.IsBlank) → c.next = (c.behind texts.length).next) ∧
      ∀ tag i, c.next = (.ok tag, i) → ∀ event ∈ texts, event.IsBlank := by
  induction texts generalizing c with
  | nil => exact ⟨fun _ => rfl, fun _ _ _ => List.forall_mem_nil _⟩
  | cons event texts ih =>
    obtain ⟨htext, ht⟩ := List.forall_mem_cons.1 ht
    obtain ⟨offset, events, hp, hmore⟩ := exists_pending hm
    obtain ⟨hgoes, hblank⟩ := ih ht hmore
    obtain ⟨hfirst, hfirst'⟩ := next_behind_text htext hp
    rw [List.length_cons, behind_cons hp]
    apply And.intro
    · intro hb
      obtain ⟨hevent, hrest⟩ := List.forall_mem_cons.1 hb
      exact (hfirst hevent).trans (hgoes hrest)
    · intro tag i hi
      have hevent := hfirst' tag i hi
      exact List.forall_mem_cons.2 ⟨hevent, hblank tag i (hfirst hevent ▸ hi)⟩

/-- A tree begins with character data exactly if it can be read. -/
theorem encloses_behind_text {c : Cursor} {event : Xml.Event} (ht : event.IsText)
    (hp : c.pending = event.placed offset :: events) : c.Encloses nodes d ↔
      ∃ t rest, event.text? = some t ∧ nodes = .text t :: rest ∧ (c.before events).Encloses rest d := by
  apply Iff.intro
  · intro h
    cases event with
    | text =>
      cases h with
      | text hp' hread h =>
        rw [hp] at hp'
        cases hp'
        exact ⟨_, _, toOption_eq_some_iff.2 (readText_eq_ok.1 hread), rfl, h⟩
      | finish hp' | cdata hp' | element hp' => cases hp.symm.trans hp'
    | cdata =>
      cases h with
      | cdata hp' h =>
        rw [hp] at hp'
        cases hp'
        exact ⟨_, _, rfl, rfl, h⟩
      | finish hp' | text hp' | element hp' => cases hp.symm.trans hp'
    | start | finish | fault => exact ht.elim
  · intro h
    obtain ⟨t, rest, hread, rfl, h⟩ := h
    cases event with
    | text => exact .text hp (readText_eq_ok.2 (toOption_eq_some_iff.1 hread)) h
    | cdata =>
      cases hread
      exact .cdata hp h
    | start | finish | fault => exact ht.elim

/-- It begins with a row of them exactly if all can be read. -/
theorem encloses_behind {c : Cursor} (ht : ∀ event ∈ texts, event.IsText)
    (hm : c.marks = texts ++ more) : c.Encloses nodes d ↔ (∀ event ∈ texts, event.text?.isSome) ∧
      ∃ back, nodes = (texts.filterMap Xml.Event.text?).map .text ++ back ∧
        (c.behind texts.length).Encloses back d := by
  induction texts generalizing c nodes with
  | nil =>
    apply Iff.intro
    · intro h
      exact ⟨List.forall_mem_nil _, nodes, rfl, h⟩
    · intro h
      obtain ⟨_, back, rfl, h⟩ := h
      exact h
  | cons event texts ih =>
    obtain ⟨htext, ht⟩ := List.forall_mem_cons.1 ht
    obtain ⟨offset, events, hp, hmore⟩ := exists_pending hm
    rw [encloses_behind_text htext hp, List.length_cons, behind_cons hp, List.forall_mem_cons]
    apply Iff.intro
    · intro h
      obtain ⟨t, rest, hread, rfl, h⟩ := h
      obtain ⟨hall, back, rfl, hback⟩ := (ih ht hmore).1 h
      refine ⟨⟨by rw [hread]; rfl, hall⟩, back, ?_, hback⟩
      rw [List.filterMap_cons_some hread]
      rfl
    · intro h
      obtain ⟨⟨hevent, hall⟩, back, rfl, h⟩ := h
      obtain ⟨t, hread⟩ := Option.isSome_iff_exists.1 hevent
      refine ⟨t, _, hread, ?_, (ih ht hmore).2 ⟨hall, back, rfl, h⟩⟩
      rw [List.filterMap_cons_some hread]
      rfl

/-- Skipping goes over character data whatever it is. -/
theorem skipAmong_behind {c : Cursor} (ht : ∀ event ∈ texts, event.IsText)
    (hm : c.marks = texts ++ more) (hlt : target < c.depth) : skipAmong target c c.pending =
      skipAmong target (c.behind texts.length) (c.behind texts.length).pending := by
  induction texts generalizing c with
  | nil => rfl
  | cons event texts ih =>
    obtain ⟨htext, ht⟩ := List.forall_mem_cons.1 ht
    obtain ⟨offset, events, hp, hmore⟩ := exists_pending hm
    have hrest := @ih (c.before events) ht hmore hlt
    rw [List.length_cons, behind_cons hp, ← hrest, hp, skipAmong_cons hlt]
    cases event with
    | text | cdata => rfl
    | start | finish | fault => exact htext.elim

/-! ### Other character data between the tags -/

variable {c c' d i i' : Cursor}

theorem openElement_congr (c : Cursor) (offset : Nat) (name : Xml.ResolvedName) (scope : Xml.Scope)
    (h : tag'.attributes = tag.attributes) :
    c.openElement offset name tag' scope = c.openElement offset name tag scope := by
  simp only [openElement, readAttributes, h]

/-- The cursors are before the same tag, in elements of the same names. -/
structure AtTag (c c' : Cursor) (event event' : Xml.Event) (es es' : List Xml.Event) : Prop where
  same : event.Rewrites event'
  opened : c'.opened = c.opened
  marks : c.marks = event :: es
  marks' : c'.marks = event' :: es'

theorem AtTag.next {event event' : Xml.Event} (h : c.AtTag c' event event' es es')
    (hnext : c.next = (.ok found, i)) :
    ∃ i', c'.next = (.ok found, i') ∧ i.SameTag i' ∧ i.opened = event.openAfter c.opened ∧
      i.marks = es ∧ i'.marks = es' := by
  obtain ⟨hsame, ho, hm, hm'⟩ := h
  obtain ⟨offset, events, hp, hmore⟩ := exists_pending hm
  obtain ⟨offset', events', hp', hmore'⟩ := exists_pending hm'
  cases hsame with
  | fault =>
    rw [Cursor.next, hp] at hnext
    cases hnext
  | start hattributes =>
    obtain ⟨rfl, hi⟩ := next_start_eq_ok hp hnext
    obtain ⟨i', hi', _, hsame⟩ := @exists_openElement (c.before events) (c'.before events') ho
      _ _ _ _ _ hi offset'
    rw [← openElement_congr _ _ _ _ hattributes] at hi'
    exact ⟨i', next_start hp' hi', hsame, (openElement_moves hi).1, (marks_of_openElement hi hmore).1,
      (marks_of_openElement hi' hmore').1⟩
  | finish =>
    obtain ⟨rfl, hi⟩ := next_finish_eq_ok hp hnext
    obtain ⟨i', hi', hpending, hsame⟩ := @exists_closeElement (c.before events) (c'.before events') ho
      _ _ _ hi offset'
    exact ⟨i', next_finish hp' hi', hsame, (closeElement_moves hi).1,
      (marks_of_pending (closeElement_pending hi).1).trans hmore,
      (marks_of_pending hpending).trans hmore'⟩

/-- The tag is skipped as the next tag is moved to, whichever it is. -/
theorem skipAmong_of_next {event : Xml.Event} (ht : ¬event.IsText) (hm : c.marks = event :: es)
    (hnext : c.next = (.ok found, i)) (hlt : target < c.depth) :
    skipAmong target c c.pending = skipAmong target i i.pending := by
  obtain ⟨offset, events, hp, _⟩ := exists_pending hm
  cases event with
  | text | cdata => exact absurd trivial ht
  | fault =>
    rw [next, hp] at hnext
    cases hnext
  | start => exact skipAmong_start hp (next_start_eq_ok hp hnext).2 hlt
  | finish => exact skipAmong_finish hp (next_finish_eq_ok hp hnext).2 hlt

theorem next_of_skipAmong {event : Xml.Event} (ht : ¬event.IsText) (hm : c.marks = event :: es)
    (h : skipAmong target c c.pending = (.ok (), d)) (hlt : target < c.depth) :
    ∃ found i, c.next = (.ok found, i) := by
  obtain ⟨offset, events, hp, _⟩ := exists_pending hm
  rw [hp] at h
  cases event with
  | text | cdata => exact absurd trivial ht
  | fault =>
    rw [Xml.Event.placed, skipAmong_cons hlt] at h
    cases h
  | start =>
    obtain ⟨i, hi, _⟩ := (skipAmong_start_eq_ok hlt).1 h
    exact ⟨_, i, next_start hp hi⟩
  | finish =>
    obtain ⟨i, hi, _⟩ := (skipAmong_finish_eq_ok hlt).1 h
    exact ⟨_, i, next_finish hp hi⟩

/-- The next tag is the same. -/
theorem next_respaced (hr : Xml.Respaced c.opened c.marks c'.marks) (ho : c'.opened = c.opened)
    (h : c.next = (.ok found, i)) (hfound : found ≠ .endOfDocument) :
    ∃ i', c'.next = (.ok found, i') ∧ i.SameTag i' ∧ Xml.Respaced i.opened i.marks i'.marks := by
  generalize hm : c.marks = es, hm' : c'.marks = es' at hr
  cases hr with
  | last htexts =>
    have hall := hm.trans (List.append_nil es).symm
    obtain ⟨hgoes, hblank⟩ := next_behind htexts.isText hall
    have hend : (c.behind es.length).pending = [] := List.map_eq_nil_iff.1 (marks_behind hall)
    rw [hgoes (hblank _ _ h), next, hend, nextAmong] at h
    dsimp only at h
    split at h
    · cases h
      exact absurd rfl hfound
    · cases h
  | @tag _ texts texts' es es' event event' htexts ht hrest =>
    obtain ⟨hgoes, hblank⟩ := next_behind htexts.isText hm
    have hblank := hblank _ _ h
    have hat : (c.behind texts.length).AtTag (c'.behind texts'.length) event event' es es' :=
      ⟨ht, ho, marks_behind hm, marks_behind hm'⟩
    obtain ⟨i', hi', hsame, hopened, rfl, rfl⟩ := hat.next (hgoes hblank ▸ h)
    refine ⟨i', ?_, hsame, hopened ▸ hrest⟩
    rw [(next_behind htexts.isText' hm').1 (htexts.blank hblank), hi']

/-- The same is skipped. -/
theorem skipAmong_respaced (hr : Xml.Respaced c.opened c.marks c'.marks) (ho : c'.opened = c.opened)
    (h : skipAmong target c c.pending = (.ok (), d)) :
    ∃ d', skipAmong target c' c'.pending = (.ok (), d') ∧ d'.opened = d.opened ∧
      Xml.Respaced d.opened d.marks d'.marks := by
  have hdepth : c'.depth = c.depth := congrArg List.length ho
  by_cases hle : c.depth ≤ target
  · cases (skipAmong_of_le hle).symm.trans h
    exact ⟨c', skipAmong_of_le (hdepth ▸ hle), ho, hr⟩
  have hlt := Nat.not_le.1 hle
  have hlt' : target < c'.depth := hdepth ▸ hlt
  generalize hopened : c.opened = opened, hm : c.marks = es, hm' : c'.marks = es' at hr
  induction hr generalizing c c' with
  | @last _ texts _ htexts =>
    have hall := hm.trans (List.append_nil texts).symm
    have hend : (c.behind texts.length).pending = [] := List.map_eq_nil_iff.1 (marks_behind hall)
    rw [skipAmong_behind htexts.isText hall hlt, hend, skipAmong] at h
    cases (if_neg hle).symm.trans h
  | @tag _ texts texts' es es' event event' htexts ht hrest ih =>
    subst hopened
    have hat : (c.behind texts.length).AtTag (c'.behind texts'.length) event event' es es' :=
      ⟨ht, ho, marks_behind hm, marks_behind hm'⟩
    rw [skipAmong_behind htexts.isText hm hlt] at h
    rw [skipAmong_behind htexts.isText' hm' hlt']
    obtain ⟨found, i, hi⟩ := next_of_skipAmong ht.isTag.1 hat.marks h hlt
    obtain ⟨i', hi', hsame, hopened, hin, hin'⟩ := hat.next hi
    rw [skipAmong_of_next ht.isTag.1 hat.marks hi hlt] at h
    rw [skipAmong_of_next ht.isTag.2 hat.marks' hi' hlt']
    have hdepth : i'.depth = i.depth := congrArg List.length hsame.opened
    by_cases hle : i.depth ≤ target
    · cases (skipAmong_of_le hle).symm.trans h
      refine ⟨i', skipAmong_of_le (hdepth ▸ hle), hsame.opened, ?_⟩
      rw [hin, hin', hopened]
      exact hrest
    · have hlt := Nat.not_le.1 hle
      exact ih hsame.opened h hdepth hle hlt (hdepth ▸ hlt) hopened hin hin'

/-! ### Other texts in the tree -/

/-- Before a tag the tree is empty, or it begins with the element of the tag. -/
theorem encloses_tag {event : Xml.Event} (ht : ¬event.IsText) (hm : c.marks = event :: es) :
    c.Encloses nodes d ↔ nodes = [] ∧ c.next = (.ok .finish, d) ∨ ∃ i within o rest,
      nodes = .element i.namespaceUri i.localName i.attributes within :: rest ∧
        c.next = (.ok .start, i) ∧ i.Encloses within o ∧ o.Encloses rest d := by
  apply Iff.intro
  · intro h
    cases h with
    | finish hp hd => exact .inl ⟨rfl, next_finish hp hd⟩
    | text hp | cdata hp =>
      rw [marks, hp] at hm
      cases hm
      exact absurd trivial ht
    | element hp hi hin hrest => exact .inr ⟨_, _, _, _, rfl, next_start hp hi, hin, hrest⟩
  · intro h
    obtain ⟨offset, events, hp, _⟩ := exists_pending hm
    rcases h with ⟨rfl, hnext⟩ | ⟨i, within, o, rest, rfl, hnext, hin, hrest⟩
    · cases event with
      | text | cdata => exact absurd trivial ht
      | fault =>
        rw [next, hp] at hnext
        cases hnext
      | start => cases (next_start_eq_ok hp hnext).1
      | finish => exact .finish hp (next_finish_eq_ok hp hnext).2
    · cases event with
      | text | cdata => exact absurd trivial ht
      | fault =>
        rw [next, hp] at hnext
        cases hnext
      | start => exact .element hp (next_start_eq_ok hp hnext).2 hin hrest
      | finish => cases (next_finish_eq_ok hp hnext).1

theorem blank_texts_iff {texts : List Xml.Event} (hr : ∀ event ∈ texts, event.text?.isSome) :
    (∀ t ∈ texts.filterMap Xml.Event.text?, Text.trimmed t = "") ↔ ∀ event ∈ texts, event.IsBlank := by
  apply Iff.intro
  · intro h event hmem
    obtain ⟨t, ht⟩ := Option.isSome_iff_exists.1 (hr event hmem)
    exact ⟨t, ht, h t (List.mem_filterMap.2 ⟨event, hmem, ht⟩)⟩
  · intro h t hmem
    obtain ⟨event, hevent, ht⟩ := List.mem_filterMap.1 hmem
    obtain ⟨t', ht', hb⟩ := h event hevent
    cases ht.symm.trans ht'
    exact hb

/-- Character data that may stand in the place of other gives texts that may. -/
theorem respaced_texts {names : List String} (h : Xml.Respaces names texts texts')
    (hname : names.head?.map ElementName.ofString = some kind)
    (hr : ∀ event ∈ texts, event.text?.isSome) (hrest : Node.Respaced kind nodes nodes') :
    Node.Respaced kind ((texts.filterMap Xml.Event.text?).map .text ++ nodes)
      ((texts'.filterMap Xml.Event.text?).map .text ++ nodes') := by
  refine .texts ?_ (fun hk => ?_) hrest
  · rw [blank_texts_iff hr, blank_texts_iff (h.readable hr)]
    exact h.blank
  · rw [h.password (hname.trans (congrArg some hk))]

/-- In the place of the tree stands one that differs in its texts only. -/
theorem Encloses.respaced (h : c.Encloses nodes d) (hr : Xml.Respaced c.opened c.marks c'.marks)
    (ho : c'.opened = c.opened) (hname : c.opened.head?.map .ofString = some kind) :
    ∃ nodes' d', c'.Encloses nodes' d' ∧ Node.Respaced kind nodes nodes' ∧ d'.opened = d.opened ∧
      Xml.Respaced d.opened d.marks d'.marks := by
  -- Less is pending inside the next element, and less still behind it.
  induction hn : c.pending.length using Nat.strong_induction_on generalizing c c' d kind nodes with
  | _ n ih =>
    generalize hm : c.marks = es, hm' : c'.marks = es' at hr
    cases hr with
    | last htexts =>
      have hall := hm.trans (List.append_nil es).symm
      obtain ⟨_, back, _, hback⟩ := (encloses_behind htexts.isText hall).1 h
      have hend : (c.behind es.length).pending = [] := List.map_eq_nil_iff.1 (marks_behind hall)
      cases hback with
      | finish hp | text hp | cdata hp | element hp => cases hend.symm.trans hp
    | @tag _ texts texts' es es' event event' htexts ht hrest =>
      obtain ⟨hread, back, rfl, hback⟩ := (encloses_behind htexts.isText hm).1 h
      have hat : (c.behind texts.length).AtTag (c'.behind texts'.length) event event' es es' :=
        ⟨ht, ho, marks_behind hm, marks_behind hm'⟩
      have hnodes {back back' : List Node} {d' : Cursor} (h : Node.Respaced kind back back')
          (hback' : (c'.behind texts'.length).Encloses back' d') :
          ∃ nodes', c'.Encloses nodes' d' ∧
            Node.Respaced kind ((texts.filterMap Xml.Event.text?).map .text ++ back) nodes' :=
        ⟨_, (encloses_behind htexts.isText' hm').2 ⟨htexts.readable hread, _, rfl, hback'⟩,
          respaced_texts htexts hname hread h⟩
      obtain ⟨rfl, hnext⟩ | ⟨i, within, o, rest, rfl, hnext, hin, hbehind⟩ :=
        (encloses_tag ht.isTag.1 hat.marks).1 hback
      · obtain ⟨d', hd', hsame, hopened, rfl, rfl⟩ := hat.next hnext
        have htag := (encloses_tag ht.isTag.2 hat.marks').2 (.inl ⟨rfl, hd'⟩)
        obtain ⟨nodes', hn', hrespaced⟩ := hnodes .nil htag
        exact ⟨nodes', d', hn', hrespaced, hsame.opened, hopened ▸ hrest⟩
      · obtain ⟨i', hi', hsame, hopened, rfl, rfl⟩ := hat.next hnext
        have hinside : i.opened = i.localName :: c.opened := (next_start_moves hnext).1
        have hlt : i.pending.length < n := by
          have hdrop : (c.behind texts.length).pending.length ≤ c.pending.length :=
            (List.drop_sublist ..).length_le
          have hnext := next_pending_lt hnext (by simp)
          omega
        have hout : o.opened = c.opened := by rw [hin.moves.1, hinside, List.tail_cons]
        obtain ⟨within', o', hin', hwithin, ho', hro⟩ := ih _ hlt hin (hopened ▸ hrest) hsame.opened
          (by rw [hinside]; rfl) rfl
        obtain ⟨rest', d', hbehind', hrespaced, hd', hrd⟩ := ih _ (Nat.lt_trans hin.pending_lt hlt)
          hbehind hro ho' (hout ▸ hname) rfl
        have htag := (encloses_tag ht.isTag.2 hat.marks').2
          (.inr ⟨i', within', o', rest', rfl, hi', hin', hbehind'⟩)
        rw [hsame.namespaceUri, hsame.localName, hsame.attributes] at htag
        obtain ⟨nodes', hn', hnodes'⟩ := hnodes (.element hwithin hrespaced) htag
        exact ⟨nodes', d', hn', hnodes', hd', hrd⟩

theorem Spans.respaced (h : i.Spans e d) (hr : Xml.Respaced i.opened i.marks i'.marks)
    (hsame : i.SameTag i') (hname : i.opened.head? = some i.localName) :
    ∃ e' d', i'.Spans e' d' ∧ e.Respaced e' := by
  have hkind : i.opened.head?.map ElementName.ofString = some e.kind := by
    rw [hname, h.start]
    rfl
  obtain ⟨nodes', d', hin, hnodes, _⟩ := h.inside.respaced hr hsame.opened hkind
  refine ⟨{ e with content := nodes' }, d', ⟨?_, hin⟩, rfl, hnodes⟩
  rw [h.start, element, element, hsame.namespaceUri, hsame.localName, hsame.attributes]

/-! ### Other texts in the sections -/

/-- The cursors are on tags of one name, before trees that differ in their texts only. -/
structure Matches (i i' : Cursor) : Prop where
  tagName : i'.tagName = i.tagName
  spans : ∀ e d, i.Spans e d → ∃ e' d', i'.Spans e' d' ∧ e.Respaced e'

theorem Heads.respaced {is : List Cursor} (h : c.Heads is d)
    (hr : Xml.Respaced c.opened c.marks c'.marks) (ho : c'.opened = c.opened) :
    ∃ is' d', c'.Heads is' d' ∧ List.Forall₂ Matches is is' := by
  induction h generalizing c' with
  | finish hnext =>
    obtain ⟨d', hd', _⟩ := next_respaced hr ho hnext (by simp)
    exact ⟨[], d', .finish hd', .nil⟩
  | @child c i o _ _ hnext hskip _ ih =>
    obtain ⟨i', hi', hsame, hin⟩ := next_respaced hr ho hnext (by simp)
    obtain ⟨o', ho', houtside, hout⟩ := skipAmong_respaced hin hsame.opened hskip
    obtain ⟨is', d', hrest, hall⟩ := ih hout houtside
    have hskip' : i'.skipElement = (.ok (), o') := by
      rwa [skipElement, depth, hsame.opened]
    refine ⟨i' :: is', d', .child hi' hskip' hrest, .cons ⟨?_, fun e d hspans => ?_⟩ hall⟩
    · rw [tagName, tagName, hsame.namespaceUri, hsame.localName]
    · exact hspans.respaced hin hsame (by rw [(next_start_moves hnext).1]; rfl)

/-- The selected element is still the one that is selected. -/
theorem HoldsOne.respaced {selects : Xml.ResolvedName → Bool} (h : c.HoldsOne selects e)
    (hr : Xml.Respaced c.opened c.marks c'.marks) (ho : c'.opened = c.opened) :
    ∃ e', c'.HoldsOne selects e' ∧ e.Respaced e' := by
  obtain ⟨is, d, i, d₁, hheads, hone, hspans⟩ := h
  obtain ⟨is', d', hheads', hall⟩ := hheads.respaced hr ho
  have hselected : List.Forall₂ Matches (is.filter (selects ·.tagName))
      (is'.filter (selects ·.tagName)) := by
    apply List.rel_filter _ hall
    intro i i' hi
    simp only [hi.tagName]
  rw [hone] at hselected
  obtain ⟨i', _, hi', hnil, hone'⟩ := List.forall₂_cons_left_iff.1 hselected
  cases hnil
  obtain ⟨e', d₁', hspans', he⟩ := hi'.spans e d₁ hspans
  exact ⟨e', ⟨is', d', i', d₁', hheads', hone', hspans'⟩, he⟩

end Cursor

end ManagementScript
