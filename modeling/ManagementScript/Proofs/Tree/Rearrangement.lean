import ManagementScript.Proofs.Tree.Intrusion
import ManagementScript.Proofs.Tree.Omission

/-!
Texts in which the children of an element change places. What is read of such a text is the tree of the
other one, in which the same children change places.
-/

namespace ManagementScript

namespace Element

/-- The second element is the first one with the same children in another order. -/
structure Reorders (e e' : Element) : Prop where
  tag : e' = { e with content := e'.content }
  children : e'.children.Perm e.children
  texts : e'.texts.Perm e.texts
  some : e.children ≠ []

/-- The last element is the one before with `p'` in the place of `p`, to which the kinds lead. -/
inductive Differs (p p' : Element) : List ElementName → Element → Element → Prop where
  | here : Differs p p' [] p p'
  | inside (hc : e.content = front ++ c.node :: back) (h : Differs p p' path c c') :
      Differs p p' (c.kind :: path) e { e with content := front ++ c'.node :: back }

variable {grammar : GrammarNamespace} {p p' e e' c c' : Element} {front back : List Node}

theorem Differs.tag (h : Differs p p' path e e') (hp : p.Reorders p') :
    e' = { e with content := e'.content } := by
  cases h with
  | here => exact hp.tag
  | inside => rfl

theorem children_of_content (h : e.content = front ++ c.node :: back) :
    e.children = front.filterMap Node.element? ++ c :: back.filterMap Node.element? := by
  rw [children, h, List.filterMap_append]
  rfl

theorem texts_of_content (h : e.content = front ++ c.node :: back) :
    e.texts = front.filterMap Node.text? ++ back.filterMap Node.text? := by
  rw [texts, h, List.filterMap_append]
  rfl

theorem Differs.children_ne_nil (h : Differs p p' path e e') (hp : p.Reorders p') :
    e.children ≠ [] := by
  cases h with
  | here => exact hp.some
  | inside hc _ =>
    rw [children_of_content hc]
    simp

/-! ### What is inside -/

section

variable {compatible : Element → Element → Prop} {accepts : Element → Prop}

theorem Holds.perm (h : e.Holds grammar compatible accepts)
    (hsymm : ∀ c d, compatible c d → compatible d c) (hc : e'.children.Perm e.children)
    (ht : e'.texts.Perm e.texts) : e'.Holds grammar compatible accepts where
  blank t hmem := h.blank t (ht.mem_iff.1 hmem)
  namespaced c hmem := h.namespaced c (hc.mem_iff.1 hmem)
  compatible := hc.symm.pairwise h.compatible fun hcd => hsymm _ _ hcd
  accepted c hmem := h.accepted c (hc.mem_iff.1 hmem)

/-- In the place of a child may stand one with the same tag. -/
theorem Holds.replace (h : e.Holds grammar compatible accepts)
    (hc : e.content = front ++ c.node :: back) (htag : c' = { c with content := c'.content })
    (hcompatible : ∀ d, (compatible c d → compatible c' d) ∧ (compatible d c → compatible d c'))
    (ha : accepts c') :
    Holds grammar compatible accepts { e with content := front ++ c'.node :: back } := by
  obtain ⟨hblank, hnamespaced, hpair, haccepted⟩ := h
  have hkids : children { e with content := front ++ c'.node :: back } = _ :=
    children_of_content (e := { e with content := front ++ c'.node :: back }) rfl
  have hold := children_of_content hc
  apply Holds.mk
  · intro t ht
    rw [texts_of_content (e := { e with content := front ++ c'.node :: back }) rfl,
      ← texts_of_content hc] at ht
    exact hblank t ht
  · rw [hkids]
    rw [hold] at hnamespaced
    simp only [List.forall_mem_append, List.forall_mem_cons] at hnamespaced ⊢
    exact ⟨hnamespaced.1, htag ▸ hnamespaced.2.1, hnamespaced.2.2⟩
  · rw [hkids]
    rw [hold] at hpair
    rw [List.pairwise_append, List.pairwise_cons] at hpair ⊢
    obtain ⟨hfront, ⟨hbehind, hback⟩, hacross⟩ := hpair
    refine ⟨hfront, ⟨fun d hd => (hcompatible d).1 (hbehind d hd), hback⟩, ?_⟩
    intro d hd
    obtain ⟨hdc, hrest⟩ := List.forall_mem_cons.1 (hacross d hd)
    exact List.forall_mem_cons.2 ⟨(hcompatible d).2 hdc, hrest⟩
  · rw [hkids]
    rw [hold] at haccepted
    simp only [List.forall_mem_append, List.forall_mem_cons] at haccepted ⊢
    exact ⟨haccepted.1, ha, haccepted.2.2⟩

end

/-- The children of an element inside, to which the kinds lead, are in another order. -/
def Rearranges (path : List ElementName) (e e' : Element) : Prop :=
  ∃ p p', p.Reorders p' ∧ Differs p p' path e e'

/-- Among permuted parts are permuted children. -/
theorem rearranges_perm {parts parts' : List (List Node)} (hp : parts'.Perm parts)
    (hc : parts.flatten.filterMap Node.element? ≠ []) (rest : List Node) (e : Element) :
    Rearranges [] { e with content := parts.flatten ++ rest }
      { e with content := parts'.flatten ++ rest } := by
  have hcontent : (parts'.flatten ++ rest).Perm (parts.flatten ++ rest) :=
    hp.flatten.append_right rest
  refine ⟨{ e with content := parts.flatten ++ rest }, { e with content := parts'.flatten ++ rest },
    ⟨rfl, hcontent.filterMap _, hcontent.filterMap _, ?_⟩, .here⟩
  intro hnil
  rw [children, List.filterMap_append] at hnil
  exact hc (List.append_eq_nil_iff.1 hnil).1

/-- What stands in front of a change does not matter. -/
theorem Rearranges.behind {nodes nodes' : List Node}
    (h : Rearranges path { e with content := nodes } { e with content := nodes' }) (front : List Node) :
    Rearranges path { e with content := front ++ nodes } { e with content := front ++ nodes' } := by
  obtain ⟨p, p', hp, h⟩ := h
  generalize he : { e with content := nodes } = first, he' : { e with content := nodes' } = second at h
  cases h with
  | here =>
    subst he he'
    refine ⟨_, _, ⟨rfl, ?_, ?_, ?_⟩, .here⟩
    · simp only [children, List.filterMap_append]
      exact hp.children.append_left _
    · simp only [texts, List.filterMap_append]
      exact hp.texts.append_left _
    · intro hnil
      rw [children, List.filterMap_append] at hnil
      exact hp.some (List.append_eq_nil_iff.1 hnil).2
  | @inside before after path c c' _ hc h =>
    subst he
    cases he'
    have hfront (x : Element) :
        front ++ (before ++ x.node :: after) = front ++ before ++ x.node :: after :=
      (List.append_assoc ..).symm
    refine ⟨p, p', hp, ?_⟩
    have hinside := Differs.inside (e := { e with content := front ++ nodes })
      ((congrArg (front ++ ·) hc).trans (hfront c)) h
    rw [hfront]
    exact hinside

theorem Rearranges.inside (h : Rearranges path c c') (back : List Node) (e : Element) :
    Rearranges (c.kind :: path) { e with content := c.node :: back }
      { e with content := c'.node :: back } := by
  obtain ⟨p, p', hp, h⟩ := h
  have hfirst : { e with content := c.node :: back }.content = [] ++ c.node :: back := rfl
  exact ⟨p, p', hp, .inside hfirst h⟩

end Element

namespace Xml

/-- What the name is in the grammar. -/
def ResolvedName.kind (name : ResolvedName) : ElementName := .ofString name.localName

/-- Character data and whole elements, next to each other. -/
inductive Siblings : List Event → Prop where
  | nil : Siblings []
  | text (h : Siblings es) : Siblings (.text offset raw :: es)
  | cdata (h : Siblings es) : Siblings (.cdata offset content :: es)
  | element (hc : Closes 1 inside) (h : Siblings es) :
      Siblings (.start offset name tag scope :: (inside ++ es))

/-- Siblings are read from the text, whatever follows it. -/
structure IsContent (state : ScanState) (cs : List Char) : Prop where
  passes : Passes state cs (reading state cs) state
  siblings : Siblings (reading state cs)

theorem Closes.append (h : Closes m es) (hrest : Closes n rest) (hn : 0 < n) :
    Closes (m + n) (es ++ rest) := by
  obtain ⟨n, rfl⟩ := Nat.exists_eq_add_one.2 hn
  induction h with
  | last =>
    rw [Nat.add_comm]
    exact .finish hrest
  | @finish depth _ _ _ _ ih =>
    have hdepth : depth + 2 + (n + 1) = depth + n + 1 + 2 := by omega
    rw [hdepth]
    refine .finish ?_
    have hinside : depth + 1 + (n + 1) = depth + n + 1 + 1 := by omega
    exact hinside ▸ ih
  | @start depth _ _ _ _ _ _ ih =>
    have hdepth : depth + 1 + (n + 1) = depth + (n + 1) + 1 := by omega
    exact .start (hdepth ▸ ih)
  | text _ ih => exact .text ih
  | cdata _ ih => exact .cdata ih

/-- What is inside an element stands before its end tag. -/
theorem Siblings.closes (h : Siblings es) : Closes 1 (es ++ [.finish offset name]) := by
  induction h with
  | nil => exact .last
  | text _ ih => exact .text ih
  | cdata _ ih => exact .cdata ih
  | element hc _ ih =>
    rw [List.cons_append, List.append_assoc]
    exact .start (hc.append ih Nat.one_pos)

namespace IsContent

theorem of_passes (h : Passes state cs es state) (hs : Siblings es) : IsContent state cs := by
  have hread : reading state cs = es := by
    have hwhole : reading state (cs ++ []) = es ++ [] := h []
    rwa [List.append_nil, List.append_nil] at hwhole
  exact ⟨hread ▸ h, hread ▸ hs⟩

theorem blank (h : cs.dropWhile Text.isBlank = []) : IsContent state cs := by
  refine of_passes (fun rest => ?_) .nil
  rw [← reading_dropWhile, List.dropWhile_append, h]
  exact reading_dropWhile

theorem leaf (h : Passes state cs [.start 0 name tag scope, .finish 0 last] state) :
    IsContent state cs :=
  of_passes h (.element .last .nil)

theorem element (hstart : Passes state start [.start 0 name tag scope] state')
    (h : IsContent state' cs) (hfinish : Passes state' finish [.finish 0 last] state) :
    IsContent state (start ++ cs ++ finish) := by
  refine of_passes ((hstart.append h.passes).append hfinish) ?_
  rw [List.append_assoc, List.singleton_append, ← List.append_nil (_ ++ [_])]
  exact .element h.siblings.closes .nil

end IsContent

/-- The second text is the first one with the children of one element in another order, alone or together
with the character data between them. The names lead to the element, from the one that the texts are
inside of; in front of each element on the way may stand others. -/
inductive Rearranges : ScanState → List ResolvedName → List Char → List Char → Prop where
  | here {parts parts' : List (List Event)} (hf : Passes state front parts.flatten state)
      (hf' : Passes state front' parts'.flatten state) (hp : parts.Perm parts')
      (h : ∀ part ∈ parts, Siblings part) (hc : ∃ part ∈ parts, ∃ event ∈ part, ¬event.IsText) :
      Rearranges state [] (front ++ back) (front' ++ back)
  | into (hs : Siblings es) (ht : Passes state start (es ++ [.start 0 name tag scope]) state')
      (h : Rearranges state' path cs cs') :
      Rearranges state (name :: path) (start ++ cs) (start ++ cs')

theorem Passes.reading_concat (h : Passes state front (es ++ [event]) state') (cs : List Char) :
    reading state (front ++ cs) = es ++ event :: reading state' cs := by
  rw [h, List.append_assoc]
  rfl

theorem Passes.flatten {pieces : List (List Char)} (h : ∀ piece ∈ pieces, IsContent state piece) :
    Passes state pieces.flatten (pieces.map (reading state)).flatten state := by
  induction pieces with
  | nil => exact .nil state
  | cons piece pieces ih =>
    obtain ⟨hpiece, h⟩ := List.forall_mem_cons.1 h
    exact hpiece.passes.append (ih h)

/-- Pieces of the text may change places. -/
theorem Rearranges.pieces {pieces pieces' : List (List Char)} (hp : pieces.Perm pieces')
    (h : ∀ piece ∈ pieces, IsContent state piece)
    (hc : ∃ piece ∈ pieces, ∃ event ∈ reading state piece, ¬event.IsText) :
    Rearranges state [] (pieces.flatten ++ back) (pieces'.flatten ++ back) := by
  have h' : ∀ piece ∈ pieces', IsContent state piece := fun piece hmem => h piece (hp.mem_iff.2 hmem)
  refine .here (.flatten h) (.flatten h') (hp.map _) ?_ ?_
  · intro part hpart
    obtain ⟨piece, hmem, rfl⟩ := List.mem_map.1 hpart
    exact (h piece hmem).siblings
  · obtain ⟨piece, hmem, hevent⟩ := hc
    exact ⟨_, List.mem_map_of_mem hmem, hevent⟩

end Xml

namespace Cursor

/-- Inside elements of the names `opened`, the nodes are read from the events. -/
def Forms (opened : List String) (es : List Xml.Event) (nodes : List Node) : Prop :=
  ∀ (c : Cursor) ahead, c.opened = opened → c.marks = es ++ ahead →
    ∃ c₁ : Cursor, c₁.opened = opened ∧ c₁.marks = ahead ∧
      ∀ back d, c₁.Encloses back d → c.Encloses (nodes ++ back) d

theorem Forms.nil (opened : List String) : Forms opened [] [] :=
  fun c _ ho hm => ⟨c, ho, hm, fun _ _ h => h⟩

theorem Forms.append {opened : List String} {es es' : List Xml.Event} {nodes nodes' : List Node}
    (h : Forms opened es nodes) (h' : Forms opened es' nodes') :
    Forms opened (es ++ es') (nodes ++ nodes') := by
  intro c ahead ho hm
  rw [List.append_assoc] at hm
  obtain ⟨c₁, ho₁, hm₁, h₁⟩ := h c _ ho hm
  obtain ⟨c₂, ho₂, hm₂, h₂⟩ := h' c₁ ahead ho₁ hm₁
  refine ⟨c₂, ho₂, hm₂, fun back d hback => ?_⟩
  rw [List.append_assoc]
  exact h₁ _ _ (h₂ _ _ hback)

theorem Forms.flatten {opened : List String} {parts : List (List Xml.Event)}
    {nodes : List (List Node)} (h : List.Forall₂ (Forms opened) parts nodes) :
    Forms opened parts.flatten nodes.flatten := by
  induction h with
  | nil => exact .nil opened
  | cons hpart _ ih => exact hpart.append ih

/-- The first events before a cursor are the nodes `front` of the tree before it, which is read on at
`c₁`. -/
structure Splits (c : Cursor) (es : List Xml.Event) (front : List Node) (c₁ : Cursor) : Prop where
  forms : Forms c.opened es front
  element : (∃ event ∈ es, ¬event.IsText) → front.filterMap Node.element? ≠ []
  opened : c₁.opened = c.opened

theorem Splits.nil (c : Cursor) : Splits c [] [] c :=
  ⟨.nil _, fun ⟨_, hmem, _⟩ => absurd hmem List.not_mem_nil, rfl⟩

theorem Splits.append {c c₁ c₂ : Cursor} (h : Splits c es front c₁) (h' : Splits c₁ es' front' c₂) :
    Splits c (es ++ es') (front ++ front') c₂ := by
  refine ⟨h.forms.append (h.opened ▸ h'.forms), ?_, h'.opened.trans h.opened⟩
  rintro ⟨event, hmem, hevent⟩ hnil
  rw [List.filterMap_append, List.append_eq_nil_iff] at hnil
  obtain hmem | hmem := List.mem_append.1 hmem
  · exact h.element ⟨event, hmem, hevent⟩ hnil.1
  · exact h'.element ⟨event, hmem, hevent⟩ hnil.2

theorem Splits.of_text {c c₁ : Cursor} {event : Xml.Event} (h : event.IsText)
    (hforms : Forms c.opened [event] nodes) (ho : c₁.opened = c.opened) : Splits c [event] nodes c₁ := by
  refine ⟨hforms, ?_, ho⟩
  rintro ⟨found, hmem, hevent⟩
  exact absurd (List.mem_singleton.1 hmem ▸ h) hevent

theorem Encloses.split_text {c d : Cursor} (h : c.Encloses nodes d)
    (hm : c.marks = .text placed raw :: rest) : ∃ node back c₁, nodes = node :: back ∧
      Splits c [.text placed raw] [node] c₁ ∧ c₁.marks = rest ∧ c₁.Encloses back d := by
  obtain ⟨offset, events, hp, hmore⟩ := exists_pending hm
  cases h with
  | text hp' ht h =>
    rw [hp] at hp'
    cases hp'
    refine ⟨_, _, c.before events, rfl, .of_text trivial ?_ rfl, hmore, h⟩
    intro c' ahead ho hm'
    obtain ⟨offset', events', hp', hmore'⟩ := exists_pending hm'
    exact ⟨c'.before events', ho, hmore', fun back d hback =>
      .text hp' (readText_eq_ok.2 (readText_eq_ok.1 ht)) hback⟩
  | finish hp' | cdata hp' | element hp' =>
    rw [hp] at hp'
    cases hp'

theorem Encloses.split_cdata {c d : Cursor} (h : c.Encloses nodes d)
    (hm : c.marks = .cdata placed content :: rest) : ∃ node back c₁, nodes = node :: back ∧
      Splits c [.cdata placed content] [node] c₁ ∧ c₁.marks = rest ∧ c₁.Encloses back d := by
  obtain ⟨offset, events, hp, hmore⟩ := exists_pending hm
  cases h with
  | cdata hp' h =>
    rw [hp] at hp'
    cases hp'
    refine ⟨_, _, c.before events, rfl, .of_text trivial ?_ rfl, hmore, h⟩
    intro c' ahead ho hm'
    obtain ⟨offset', events', hp', hmore'⟩ := exists_pending hm'
    exact ⟨c'.before events', ho, hmore', fun back d hback => .cdata hp' hback⟩
  | finish hp' | text hp' | element hp' =>
    rw [hp] at hp'
    cases hp'

theorem Encloses.split_element {c d : Cursor} (h : c.Encloses nodes d) (hc : Xml.Closes 1 inside)
    (hm : c.marks = .start placed name tag scope :: (inside ++ rest)) :
    ∃ node back c₁, nodes = node :: back ∧ Splits c (.start placed name tag scope :: inside) [node] c₁ ∧
      c₁.marks = rest ∧ c₁.Encloses back d := by
  obtain ⟨offset, events, hp, hmore⟩ := exists_pending hm
  cases h with
  | element hp' hi hin h =>
    rw [hp] at hp'
    cases hp'
    obtain ⟨him, hopen⟩ := marks_of_openElement hi hmore
    obtain ⟨ho, hom⟩ := skipped_of_closes hc hi hmore (hin.skipElement hopen)
    refine ⟨_, _, _, rfl, ⟨?_, fun _ => List.cons_ne_nil _ _, ho⟩, hom, h⟩
    intro c' ahead ho' hm'
    obtain ⟨offset', events', hp', hmore'⟩ := exists_pending hm'
    obtain ⟨i', hi', _, hsame⟩ := @exists_openElement (c.before events) (c'.before events') ho'
      _ _ _ _ _ hi offset'
    obtain ⟨used, hused, htransfer⟩ := hin.transfer
    rw [him, hom] at hused
    obtain rfl := List.append_cancel_right hused
    obtain ⟨o', hin', hoo', hom'⟩ := htransfer i' _ hsame.opened
      (marks_of_openElement hi' hmore').1
    refine ⟨o', hoo'.trans ho, hom', fun back d hback => ?_⟩
    have hnodes := Encloses.element hp' hi' hin' hback
    rw [hsame.namespaceUri, hsame.localName, hsame.attributes] at hnodes
    exact hnodes
  | finish hp' | text hp' | cdata hp' =>
    rw [hp] at hp'
    cases hp'

/-- Whole siblings before a cursor are a part of the tree before it. -/
theorem Encloses.split {c d : Cursor} (h : c.Encloses nodes d) (hs : Xml.Siblings es)
    (hm : c.marks = es ++ rest) : ∃ (front back : List Node) (c₁ : Cursor),
      nodes = front ++ back ∧ Splits c es front c₁ ∧ c₁.marks = rest ∧ c₁.Encloses back d := by
  induction hs generalizing c nodes with
  | nil => exact ⟨[], nodes, c, rfl, .nil c, hm, h⟩
  | text _ ih =>
    obtain ⟨node, behind, c₁, rfl, hnode, hm₁, h₁⟩ := h.split_text hm
    obtain ⟨front, back, c₂, rfl, hfront, hrest⟩ := ih h₁ hm₁
    exact ⟨node :: front, back, c₂, rfl, hnode.append hfront, hrest⟩
  | cdata _ ih =>
    obtain ⟨node, behind, c₁, rfl, hnode, hm₁, h₁⟩ := h.split_cdata hm
    obtain ⟨front, back, c₂, rfl, hfront, hrest⟩ := ih h₁ hm₁
    exact ⟨node :: front, back, c₂, rfl, hnode.append hfront, hrest⟩
  | element hc _ ih =>
    rw [List.cons_append, List.append_assoc] at hm
    obtain ⟨node, behind, c₁, rfl, hnode, hm₁, h₁⟩ := h.split_element hc hm
    obtain ⟨front, back, c₂, rfl, hfront, hrest⟩ := ih h₁ hm₁
    exact ⟨node :: front, back, c₂, rfl, hnode.append hfront, hrest⟩

/-- Each part of the events is a part of the tree. -/
theorem Encloses.splitParts {c d : Cursor} {parts : List (List Xml.Event)} (h : c.Encloses nodes d)
    (hp : ∀ part ∈ parts, Xml.Siblings part) (hm : c.marks = parts.flatten ++ rest) :
    ∃ (fronts : List (List Node)) (back : List Node) (c₁ : Cursor), nodes = fronts.flatten ++ back ∧
      List.Forall₂ (Forms c.opened) parts fronts ∧ Splits c parts.flatten fronts.flatten c₁ ∧
      c₁.marks = rest ∧ c₁.Encloses back d := by
  induction parts generalizing c nodes with
  | nil => exact ⟨[], nodes, c, rfl, .nil, .nil c, hm, h⟩
  | cons part parts ih =>
    obtain ⟨hpart, hp⟩ := List.forall_mem_cons.1 hp
    rw [List.flatten_cons, List.append_assoc] at hm
    obtain ⟨front, behind, c₁, rfl, hfront, hm₁, h₁⟩ := h.split hpart hm
    obtain ⟨fronts, back, c₂, rfl, hall, hfronts, hrest⟩ := ih h₁ hp hm₁
    rw [hfront.opened] at hall
    exact ⟨front :: fronts, back, c₂, by simp, .cons hfront.forms hall, hfront.append hfronts, hrest⟩

/-- From a text with children in another order, the tree with these children in the other order is
read. -/
theorem Encloses.rearrange (hr : Xml.Rearranges state path cs cs') {c c' d : Cursor}
    (h : c.Encloses nodes d) (ho : c'.opened = c.opened) (hm : c.marks = Xml.reading state cs)
    (hm' : c'.marks = Xml.reading state cs') : ∃ nodes' d', c'.Encloses nodes' d' ∧
      d'.opened = d.opened ∧ d'.marks = d.marks ∧ ∀ e : Element, Element.Rearranges
        (path.map (·.kind)) { e with content := nodes } { e with content := nodes' } := by
  induction hr generalizing c c' nodes d with
  | @here _ _ _ back parts parts' hf hf' hp hparts hchild =>
    obtain ⟨fronts, rest, c₁, rfl, hall, hsplits, hm₁, h₁⟩ :=
      h.splitParts hparts (hm.trans (hf back))
    obtain ⟨fronts', hall', hperm⟩ := List.perm_comp_forall₂ hp.symm hall
    obtain ⟨c₁', ho₁', hm₁', htree⟩ := Forms.flatten hall' c' _ ho (hm'.trans (hf' back))
    obtain ⟨used, hused, htransfer⟩ := h₁.transfer
    obtain ⟨d', hd', hdo, hdm⟩ := htransfer c₁' d.marks (ho₁'.trans hsplits.opened.symm)
      (hm₁'.trans (hm₁.symm.trans hused))
    obtain ⟨part, hpart, event, hevent, hne⟩ := hchild
    have helement := hsplits.element ⟨event, List.mem_flatten_of_mem hpart hevent, hne⟩
    exact ⟨_, d', htree _ _ hd', hdo, hdm, Element.rearranges_perm hperm helement rest⟩
  | into hs ht _ ih =>
    obtain ⟨front, back, c₁, rfl, hsplits, hm₁, h₁⟩ := h.split hs (hm.trans (ht.reading_concat _))
    obtain ⟨c₁', ho₁', hm₁', htree⟩ := hsplits.forms c' _ ho (hm'.trans (ht.reading_concat _))
    obtain ⟨offset, events, hp, hmore⟩ := exists_pending hm₁
    obtain ⟨offset', events', hp', hmore'⟩ := exists_pending hm₁'
    cases h₁ with
    | @element _ i within o rest _ _ _ _ _ _ hp₁ hi hin hrest =>
      rw [hp] at hp₁
      cases hp₁
      obtain ⟨i', hi', _, hsame⟩ := @exists_openElement (c₁.before events) (c₁'.before events')
        (ho₁'.trans hsplits.opened.symm) _ _ _ _ _ hi offset'
      obtain ⟨within', o', hin', hoo, hom, he⟩ := ih hin hsame.opened
        (marks_of_openElement hi hmore).1 (marks_of_openElement hi' hmore').1
      obtain ⟨used, hused, htransfer⟩ := hrest.transfer
      obtain ⟨d', hd', hdo, hdm⟩ := htransfer o' d.marks hoo (hom.trans hused)
      have hnodes := Encloses.element hp' hi' hin' hd'
      rw [hsame.namespaceUri, hsame.localName, hsame.attributes] at hnodes
      refine ⟨_, d', htree _ _ hnodes, hdo, hdm, fun e => ?_⟩
      rw [List.map_cons, ← tagName_of_openElement hi]
      exact ((he (i.element within)).inside rest e).behind front
    | finish hp₁ | text hp₁ | cdata hp₁ =>
      rw [hp] at hp₁
      cases hp₁

/-- An element with the same start tag is read there, and in it the children in the other order. -/
theorem Spans.rearrange (hr : Xml.Rearranges state path cs cs') {c c' d : Cursor} (h : c.Spans e d)
    (hsame : c.SameTag c') (hm : c.marks = Xml.reading state cs)
    (hm' : c'.marks = Xml.reading state cs') : ∃ e' d', c'.Spans e' d' ∧
      d'.opened = d.opened ∧ d'.marks = d.marks ∧ Element.Rearranges (path.map (·.kind)) e e' := by
  obtain ⟨inside, d', hin, hdo, hdm, he⟩ := h.inside.rearrange hr hsame.opened hm hm'
  refine ⟨{ e with content := inside }, d', ⟨?_, hin⟩, hdo, hdm, he e⟩
  rw [h.start, Cursor.element, Cursor.element, hsame.namespaceUri, hsame.localName, hsame.attributes]

/-! ### Sections -/

/-- What is skipped ends with the end tag that brings the cursor back to the depth asked for. -/
theorem exists_closes {c d : Cursor} (hn : 0 < n) (hdepth : c.depth = target + n)
    (h : skipAmong target c events = (.ok (), d)) :
    ∃ es, events.map Xml.Event.unplaced = es ++ d.marks ∧ Xml.Closes n es := by
  have hlt : target < c.depth := by omega
  induction events generalizing c n with
  | nil =>
    simp only [skipAmong] at h
    split at h
    · next hle => exact absurd hlt (Nat.not_lt.2 hle)
    · cases h
  | cons event events ih =>
    cases event with
    | fault =>
      rw [skipAmong_cons hlt] at h
      cases h
    | text | cdata =>
      rw [skipAmong_cons hlt] at h
      obtain ⟨es, hes, hc⟩ := @ih _ (c.before events) hn hdepth h hlt
      refine ⟨_ :: es, congrArg _ hes, ?_⟩
      first
      | exact .text hc
      | exact .cdata hc
    | start offset name tag scope =>
      obtain ⟨i, hi, hskip⟩ := (skipAmong_start_eq_ok hlt).1 h
      have hinside : i.depth = target + (n + 1) :=
        (openElement_depth hi).trans (congrArg (· + 1) hdepth)
      obtain ⟨es, hes, hc⟩ := ih (Nat.succ_pos n) hinside hskip (by omega)
      exact ⟨_ :: es, congrArg _ hes, .start hc⟩
    | finish offset name =>
      obtain ⟨o, ho, hskip⟩ := (skipAmong_finish_eq_ok hlt).1 h
      have houtside : o.depth = c.depth - 1 := closeElement_depth ho
      obtain ⟨n, rfl⟩ := Nat.exists_eq_add_one.2 hn
      cases n with
      | zero =>
        rw [skipAmong_stop (by omega)] at hskip
        cases hskip
        exact ⟨[.finish 0 name], rfl, .last⟩
      | succ n =>
        obtain ⟨es, hes, hc⟩ := ih (Nat.succ_pos n) (by omega) hskip (by omega)
        exact ⟨_ :: es, congrArg _ hes, .finish hc⟩

/-- Where the heads `is` of whole siblings are met, heads of the same names are met, wherever these
are. -/
def PassesHeads (opened : List String) (es : List Xml.Event) (is : List Cursor) : Prop :=
  ∀ (c : Cursor) ahead, c.opened = opened → c.marks = es ++ ahead →
    ∃ (is' : List Cursor) (c₁ : Cursor), is'.map tagName = is.map tagName ∧ c₁.opened = opened ∧
      c₁.marks = ahead ∧ ∀ back d, c₁.Heads back d → c.Heads (is' ++ back) d

theorem PassesHeads.nil (opened : List String) : PassesHeads opened [] [] :=
  fun c _ ho hm => ⟨[], c, rfl, ho, hm, fun _ _ h => h⟩

theorem PassesHeads.append {opened : List String} {es es' : List Xml.Event}
    {front behind : List Cursor} (h : PassesHeads opened es front)
    (h' : PassesHeads opened es' behind) : PassesHeads opened (es ++ es') (front ++ behind) := by
  intro c ahead ho hm
  rw [List.append_assoc] at hm
  obtain ⟨is, c₁, hnames, ho₁, hm₁, h₁⟩ := h c _ ho hm
  obtain ⟨is', c₂, hnames', ho₂, hm₂, h₂⟩ := h' c₁ ahead ho₁ hm₁
  refine ⟨is ++ is', c₂, ?_, ho₂, hm₂, fun back d hback => ?_⟩
  · rw [List.map_append, List.map_append, hnames, hnames']
  · rw [List.append_assoc]
    exact h₁ _ _ (h₂ _ _ hback)

theorem Heads.split_text {c d : Cursor} {event : Xml.Event} (h : c.Heads is d)
    (hm : c.marks = event :: rest) (ht : event.IsText) : ∃ c₁ : Cursor, PassesHeads c.opened [event] [] ∧
      c₁.opened = c.opened ∧ c₁.marks = rest ∧ c₁.Heads is d := by
  obtain ⟨tag, i, hnext⟩ := h.next_eq
  obtain ⟨c₁, he, ho, hm₁⟩ := exists_behind_text ht hm hnext c hm
  refine ⟨c₁, ?_, ho, hm₁, h.of_next he.symm⟩
  intro c' ahead ho' hm'
  obtain ⟨c₁', he', ho₁', hm₁'⟩ := exists_behind_text ht hm hnext c' hm'
  exact ⟨[], c₁', rfl, ho₁'.trans ho', hm₁', fun back d hback => hback.of_next he'⟩

theorem Heads.split_element {c d : Cursor} (h : c.Heads is d) (hc : Xml.Closes 1 inside)
    (hm : c.marks = .start placed name tag scope :: (inside ++ rest)) :
    ∃ (i : Cursor) (behind : List Cursor) (c₁ : Cursor), is = i :: behind ∧
      PassesHeads c.opened (.start placed name tag scope :: inside) [i] ∧ c₁.opened = c.opened ∧
      c₁.marks = rest ∧ c₁.Heads behind d := by
  obtain ⟨offset, events, hp, hmore⟩ := exists_pending hm
  cases h with
  | finish hnext => cases (next_start_eq_ok hp hnext).1
  | @child i o is _ _ hnext hskip hrest =>
    obtain ⟨_, hi⟩ := next_start_eq_ok hp hnext
    obtain ⟨him, hopen⟩ := marks_of_openElement hi hmore
    obtain ⟨ho, hom⟩ := skipped_of_closes hc hi hmore hskip
    refine ⟨i, is, o, rfl, fun c' ahead ho' hm' => ?_, ho, hom, hrest⟩
    obtain ⟨offset', events', hp', hmore'⟩ := exists_pending hm'
    obtain ⟨i', hi', _, hsame⟩ := @exists_openElement (c.before events) (c'.before events') ho'
      _ _ _ _ _ hi offset'
    obtain ⟨him', _⟩ := marks_of_openElement hi' hmore'
    obtain ⟨_, _, o', hskip', hoo', hom'⟩ :=
      skipElement_transfer hc hsame.opened hopen him him' hskip
    refine ⟨[i'], o', ?_, hoo'.trans ho, hom', fun back d hback =>
      .child (next_start hp' hi') hskip' hback⟩
    rw [List.map_singleton, List.map_singleton, tagName_of_openElement hi,
      tagName_of_openElement hi']

theorem Heads.split {c d : Cursor} (h : c.Heads is d) (hs : Xml.Siblings es)
    (hm : c.marks = es ++ rest) : ∃ (front back : List Cursor) (c₁ : Cursor), is = front ++ back ∧
      PassesHeads c.opened es front ∧ c₁.opened = c.opened ∧ c₁.marks = rest ∧ c₁.Heads back d := by
  induction hs generalizing c is with
  | nil => exact ⟨[], is, c, rfl, .nil _, rfl, hm, h⟩
  | text _ ih | cdata _ ih =>
    obtain ⟨c₁, hfirst, ho₁, hm₁, h₁⟩ := h.split_text hm trivial
    obtain ⟨front, back, c₂, rfl, hfront, ho₂, hrest⟩ := ih h₁ hm₁
    exact ⟨front, back, c₂, rfl, hfirst.append (ho₁ ▸ hfront), ho₂.trans ho₁, hrest⟩
  | element hc _ ih =>
    rw [List.cons_append, List.append_assoc] at hm
    obtain ⟨i, behind, c₁, rfl, hfirst, ho₁, hm₁, h₁⟩ := h.split_element hc hm
    obtain ⟨front, back, c₂, rfl, hfront, ho₂, hrest⟩ := ih h₁ hm₁
    exact ⟨i :: front, back, c₂, rfl, hfirst.append (ho₁ ▸ hfront), ho₂.trans ho₁, hrest⟩

/-- The children that are met up to the end tag stand there next to each other. -/
theorem Heads.siblings {c d : Cursor} (h : c.Heads is d) : ∃ es offset name more,
    c.marks = es ++ .finish offset name :: more ∧ Xml.Siblings es := by
  induction hn : c.marks.length using Nat.strong_induction_on generalizing c is with
  | _ n ih =>
    obtain ⟨tag, i, hnext⟩ := h.next_eq
    cases hm : c.marks with
    | nil =>
      have hp : c.pending = [] := List.map_eq_nil_iff.1 hm
      have hend {i : Cursor} {tag : Tag} (hnext : c.next = (.ok tag, i)) : tag = .endOfDocument := by
        rw [Cursor.next, hp, nextAmong] at hnext
        dsimp only at hnext
        split at hnext <;> cases hnext
        rfl
      cases h with
      | finish h => cases hend h
      | child h => cases hend h
    | cons event more =>
    rw [hm, List.length_cons] at hn
    have htext (ht : event.IsText) (hs : ∀ es, Xml.Siblings es → Xml.Siblings (event :: es)) :
        ∃ es offset name behind, event :: more = es ++ .finish offset name :: behind ∧
          Xml.Siblings es := by
      obtain ⟨c₁, _, _, rfl, h₁⟩ := h.split_text hm ht
      obtain ⟨es, offset, name, behind, hbehind, hes⟩ := ih _ (by omega) h₁ rfl
      exact ⟨event :: es, offset, name, behind, congrArg _ hbehind, hs es hes⟩
    obtain ⟨offset, events, hp, rfl⟩ := exists_pending hm
    cases event with
    | text => exact htext trivial fun _ => .text
    | cdata => exact htext trivial fun _ => .cdata
    | finish offset name => exact ⟨[], offset, name, _, rfl, .nil⟩
    | fault =>
      rw [Cursor.next, hp] at hnext
      cases hnext
    | start placed name tag scope =>
      cases h with
      | finish hnext => cases (next_start_eq_ok hp hnext).1
      | @child child o _ _ _ hnext hskip hrest =>
        obtain ⟨_, hi⟩ := next_start_eq_ok hp hnext
        obtain ⟨him, hopen⟩ := marks_of_openElement hi rfl
        obtain ⟨inside, hinside, hc⟩ := exists_closes Nat.one_pos
          (Nat.sub_add_cancel (List.length_pos_iff.2 hopen)).symm hskip
        have hwhole : (c.before events).marks = inside ++ o.marks := him.symm.trans hinside
        have hle := congrArg List.length hwhole
        rw [List.length_append] at hle
        obtain ⟨es, offset, last, behind, hbehind, hes⟩ := ih _ (by omega) hrest rfl
        refine ⟨.start placed name tag scope :: (inside ++ es), offset, last, behind, ?_, .element hc hes⟩
        rw [hwhole, hbehind, List.cons_append, List.append_assoc]

/-- Where the same is still to be read, elements of the same names are met. -/
theorem Heads.congr {c c' d : Cursor} (h : c.Heads is d) (ho : c'.opened = c.opened)
    (hm : c'.marks = c.marks) : ∃ is' d', c'.Heads is' d' ∧ is'.map tagName = is.map tagName := by
  obtain ⟨es, _, name, more, he, hs⟩ := h.siblings
  obtain ⟨front, back, c₁, rfl, hpasses, ho₁, hm₁, hback⟩ := h.split hs he
  obtain ⟨is', c₁', hnames, ho₁', hm₁', hheads⟩ := hpasses c' _ ho (hm.trans he)
  obtain ⟨offset, events, hp, _⟩ := exists_pending hm₁
  obtain ⟨offset', events', hp', _⟩ := exists_pending hm₁'
  cases hback with
  | child hnext _ _ => cases (next_finish_eq_ok hp hnext).1
  | finish hnext =>
    obtain ⟨_, hd⟩ := next_finish_eq_ok hp hnext
    obtain ⟨d', hd', _⟩ := @exists_closeElement (c₁.before events) (c₁'.before events')
      (ho₁'.trans ho₁.symm) _ _ _ hd offset'
    exact ⟨is' ++ [], d', hheads [] d' (.finish (next_finish hp' hd')), by simp [hnames]⟩

/-- Among the elements that are met is the one with other children inside. -/
theorem Heads.rearrange (hr : Xml.Rearranges state (name :: path) cs cs') {c c' d : Cursor}
    (h : c.Heads is d) (hspan : ∀ i ∈ is, i.tagName = name → ∃ d, i.Spans e d)
    (ho : c'.opened = c.opened) (hm : c.marks = Xml.reading state cs)
    (hm' : c'.marks = Xml.reading state cs') :
    ∃ is' d', c'.Heads is' d' ∧ is'.map tagName = is.map tagName ∧
      ∃ i' ∈ is', i'.tagName = name ∧
        ∃ e' d', i'.Spans e' d' ∧ Element.Rearranges (path.map (·.kind)) e e' := by
  cases hr with
  | into hs ht hr =>
    obtain ⟨front, back, c₁, rfl, hpasses, ho₁, hm₁, h₁⟩ := h.split hs (hm.trans (ht.reading_concat _))
    obtain ⟨front', c₁', hfront, ho₁', hm₁', hheads⟩ := hpasses c' _ ho (hm'.trans (ht.reading_concat _))
    obtain ⟨offset, events, hp, hmore⟩ := exists_pending hm₁
    obtain ⟨offset', events', hp', hmore'⟩ := exists_pending hm₁'
    cases h₁ with
    | finish hnext => cases (next_start_eq_ok hp hnext).1
    | @child i _ is _ _ hnext hskip hrest =>
      obtain ⟨_, hi⟩ := next_start_eq_ok hp hnext
      obtain ⟨i', hi', _, hsame⟩ := @exists_openElement (c₁.before events) (c₁'.before events')
        (ho₁'.trans ho₁.symm) _ _ _ _ _ hi offset'
      obtain ⟨him, hopen⟩ := marks_of_openElement hi hmore
      obtain ⟨him', hopen'⟩ := marks_of_openElement hi' hmore'
      have hname := tagName_of_openElement hi
      have hname' := tagName_of_openElement hi'
      obtain ⟨d₁, he⟩ := hspan i (List.mem_append_right _ (List.mem_cons_self ..)) hname
      obtain ⟨e', d₁', he', hdo, hdm, hinside⟩ := he.rearrange hr hsame him him'
      cases (he.inside.skipElement hopen).symm.trans hskip
      obtain ⟨is', d', hrest', hbehind⟩ := hrest.congr hdo hdm
      have hchild := Heads.child (next_start hp' hi') (he'.inside.skipElement hopen') hrest'
      refine ⟨front' ++ i' :: is', d', hheads _ _ hchild, ?_, i',
        List.mem_append_right _ (List.mem_cons_self ..), hname', e', d₁', he', hinside⟩
      rw [List.map_append, List.map_append, List.map_cons, List.map_cons, hfront, hbehind, hname, hname']

/-- The selected element is still the one that is selected when children inside it change places. -/
theorem HoldsOne.rearrange {selects : Xml.ResolvedName → Bool} (hn : selects name = true)
    (hr : Xml.Rearranges state (name :: path) cs cs') {c c' : Cursor} (h : c.HoldsOne selects e)
    (ho : c'.opened = c.opened) (hm : c.marks = Xml.reading state cs)
    (hm' : c'.marks = Xml.reading state cs') :
    ∃ e', c'.HoldsOne selects e' ∧ Element.Rearranges (path.map (·.kind)) e e' := by
  obtain ⟨is, d, i, d₁, hh, hone, hi⟩ := h
  have hspan : ∀ j ∈ is, j.tagName = name → ∃ d, j.Spans e d := by
    intro j hj hname
    have hmem : j ∈ is.filter (selects ·.tagName) := List.mem_filter.2 ⟨hj, hname ▸ hn⟩
    rw [hone] at hmem
    obtain rfl := List.mem_singleton.1 hmem
    exact ⟨d₁, hi⟩
  obtain ⟨is', d', hh', hnames, i', hi', hname, e', d₁', he', hinside⟩ :=
    hh.rearrange hr hspan ho hm hm'
  refine ⟨e', ⟨is', d', i', d₁', hh', ?_, he'⟩, hinside⟩
  have hsame : (is'.filter (selects ·.tagName)).map tagName =
      (is.filter (selects ·.tagName)).map tagName := by
    have hmap (xs : List Cursor) :
        (xs.filter (selects ·.tagName)).map tagName = (xs.map tagName).filter selects :=
      List.filter_map.symm
    rw [hmap, hmap, hnames]
  rw [hone] at hsame
  obtain ⟨j, hj, _⟩ := List.map_eq_singleton_iff.1 hsame
  have hmem : i' ∈ is'.filter (selects ·.tagName) := List.mem_filter.2 ⟨hi', hname ▸ hn⟩
  rw [hj] at hmem ⊢
  rw [List.mem_singleton.1 hmem]

end Cursor

end ManagementScript
