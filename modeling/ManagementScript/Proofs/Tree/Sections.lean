import ManagementScript.Proofs.Tree.ElementText

/-!
The children of the root of a document, which may be taken out of its text. What is read from the text
that is left is what is read from the whole text, less the elements that are taken out.
-/

namespace ManagementScript.Xml

/-- The part of a text in front of an end of it. -/
def inFront (cs rest : List Char) : List Char := cs.take (cs.length - rest.length)

section

variable (selects : ResolvedName → Bool)

/-- What is behind the markup that a text inside the root begins with, a start tag together with its
element, and whether it stays. The end tag of the root is not passed over. -/
def sectionAt (scope : Scope) : List Char → Option (Bool × List Char)
  | [] => none
  | c :: markup =>
    match markupOf markup with
    | .ok (.startTag tag _, _) =>
      (behindRoot (markup.length + 1) 0 (c :: markup)).map (selects (scope.nameOf tag), ·)
    | .ok (.aside, rest) | .ok (.cdata _, rest) => some (true, rest)
    | .ok (.endTag _, _) | .ok (.namelessDoctype, _) | .error _ => none

/-- A text inside the root without the elements that are not selected. -/
def selectSections (scope : Scope) : (steps : Nat) → List Char → List Char
  | 0, cs => cs
  | steps + 1, cs =>
    let ahead := cs.dropWhile (· != '<')
    match sectionAt selects scope ahead with
    | none => cs
    | some (stays, rest) =>
      cs.takeWhile (· != '<') ++ (if stays then inFront ahead rest else []) ++
        selectSections scope steps rest

/-- The text of a document without the children of its root that are not selected. -/
def selectInRoot : (steps : Nat) → List Char → List Char
  | 0, cs => cs
  | steps + 1, cs =>
    let run := cs.takeWhile (· != '<')
    let ahead := cs.dropWhile (· != '<')
    match markupOf ahead.tail with
    | .ok (.startTag tag false, rest) =>
      run ++ inFront ahead rest ++
        selectSections selects (Scope.initial.declareAll (tag.attributes false).1).1 steps rest
    | .ok (.aside, rest) | .ok (.cdata _, rest) =>
      run ++ inFront ahead rest ++ selectInRoot steps rest
    | _ => cs

def selectedSections (source : String) : String :=
  String.ofList (selectInRoot selects source.toList.length source.toList)

end

/-! ### Texts without some of their sections -/

/-- The events on the right are those on the left without the elements that are not selected. Where
elements are taken out, runs of character data come together; `run` is what is read of such a run. -/
inductive Omits (selects : ResolvedName → Bool) : (run : List Char) → List Event → List Event → Prop where
  | run (h : Omits selects (run ++ run') es ts) : Omits selects run (runEvents run' ++ es) ts
  | aside (h : Omits selects [] es ts) : Omits selects run es (runEvents run ++ ts)
  | cdata (h : Omits selects [] es ts) :
      Omits selects run (.cdata 0 content :: es) (runEvents run ++ .cdata 0 content :: ts)
  | omitted (hn : selects name = false) (hc : Closes 1 inside) (h : Omits selects run es ts) :
      Omits selects run (.start 0 name tag scope :: (inside ++ es)) ts
  | selected (hn : selects name = true) (hc : Closes 1 inside) (h : Omits selects [] es ts) :
      Omits selects run (.start 0 name tag scope :: (inside ++ es))
        (runEvents run ++ .start 0 name tag scope :: (inside ++ ts))
  | finish : Omits selects run (.finish 0 name :: es) (runEvents run ++ .finish 0 name :: ts)

theorem inFront_append (used rest : List Char) : inFront (used ++ rest) rest = used := by
  rw [inFront, List.length_append, Nat.add_sub_cancel, List.take_left']
  rfl

section

variable {selects : ResolvedName → Bool} {scope : Scope} {cs markup : List Char}

theorem selectSections_of_none (hcs : cs.dropWhile (· != '<') = '<' :: markup)
    (hs : sectionAt selects scope ('<' :: markup) = none) :
    selectSections selects scope (steps + 1) cs = cs := by
  simp only [selectSections, hcs, hs]

theorem selectSections_of_some {used rest : List Char}
    (hcs : cs.dropWhile (· != '<') = '<' :: (used ++ rest))
    (hs : sectionAt selects scope ('<' :: (used ++ rest)) = some (stays, rest)) :
    selectSections selects scope (steps + 1) cs = cs.takeWhile (· != '<') ++
      (if stays then '<' :: used else []) ++ selectSections selects scope steps rest := by
  simp only [selectSections, hcs, hs]
  rw [← List.cons_append, inFront_append]

end

/-! ### One section -/

/-- The events of a part of the text inside the root, and whether it stays: markup without elements, or
an element. -/
inductive IsSection (selects : ResolvedName → Bool) : Bool → List Event → Prop where
  | aside : IsSection selects true []
  | cdata (content : List Char) : IsSection selects true [.cdata 0 content]
  | element (name : ResolvedName) (tag : TagText) (scope : Scope) (hc : Closes 1 inside) :
      IsSection selects (selects name) (.start 0 name tag scope :: inside)

namespace IsSection

variable {selects : ResolvedName → Bool} {es ahead ts : List Event}

theorem endsRoot (h : IsSection selects stays es) (hend : EndsRoot 1 (es ++ ahead)) :
    EndsRoot 1 ahead := by
  cases h with
  | aside => exact hend
  | cdata content => exact hend.of_cdata
  | element name tag scope hc => exact hend.of_start.behind hc rfl Nat.one_pos

theorem kept (h : IsSection selects true es) (ho : Omits selects [] ahead ts) :
    Omits selects run (es ++ ahead) (runEvents run ++ (es ++ ts)) := by
  generalize hs : true = stays at h
  cases h with
  | aside => exact .aside ho
  | cdata content => exact .cdata ho
  | element name tag scope hc => exact .selected hs.symm hc ho

theorem omitted (h : IsSection selects false es) (ho : Omits selects run ahead ts) :
    Omits selects run (es ++ ahead) ts := by
  generalize hs : false = stays at h
  cases h with
  | aside | cdata => cases hs
  | element name tag scope hc => exact .omitted hs.symm hc ho

end IsSection

/-- Inside the root, markup is the end tag of the root, or a section begins with it. -/
theorem exists_section {state : ScanState} {markup inner : List Char}
    (hm : markupOf markup = .ok (p, inner)) (hend : EndsRoot 1 (reading state ('<' :: markup))) :
    sectionAt selects state.scope ('<' :: markup) = none ∧
        (∃ name ahead, reading state ('<' :: markup) = .finish 0 name :: ahead) ∨
      ∃ used rest stays es, markup = used ++ rest ∧
        sectionAt selects state.scope ('<' :: markup) = some (stays, rest) ∧
        Passes state ('<' :: used) es state ∧ IsSection selects stays es := by
  cases p with
  | aside =>
    obtain ⟨used, rfl, hp⟩ := exists_passes_tag state hm
    exact .inr ⟨used, inner, true, _, rfl, by simp only [sectionAt, hm], hp.congr rfl, .aside⟩
  | cdata content =>
    obtain ⟨used, rfl, hp⟩ := exists_passes_tag state hm
    exact .inr ⟨used, inner, true, _, rfl, by simp only [sectionAt, hm], hp.congr rfl, .cdata content⟩
  | startTag tag empty =>
    obtain ⟨used, rest, scope, es, hbehind, rfl, hp, hc⟩ := exists_element hm Nat.one_pos hend
    refine .inr ⟨used, rest, _, _, rfl, ?_, hp, .element (state.scope.nameOf tag) tag scope hc⟩
    simp only [sectionAt, hm, hbehind, Option.map_some]
  | namelessDoctype =>
    obtain ⟨used, rfl, hp⟩ := exists_passes_tag state hm
    rw [← List.cons_append, hp] at hend
    exact (ScanState.find_of_endsRoot hend).elim
  | endTag name =>
    obtain ⟨used, rfl, hp⟩ := exists_passes_tag state hm
    rw [← List.cons_append, hp] at hend ⊢
    obtain ⟨outer, _, hfound⟩ := ScanState.find_of_endsRoot hend
    rw [hfound]
    exact .inl ⟨by simp only [List.cons_append, sectionAt, hm], _, _, rfl⟩

/-- What is read inside the root of the text that is left. -/
theorem omits_selectSections {state : ScanState} {cs : List Char}
    (hend : EndsRoot 1 (reading state cs)) (hlen : cs.length ≤ steps) {run : List Char}
    (hrun : ∀ c ∈ run, c ≠ '<') :
    Omits selects run (reading state cs)
      (reading state (run ++ selectSections selects state.scope steps cs)) := by
  induction steps generalizing cs run with
  | zero =>
    obtain rfl := List.eq_nil_of_length_eq_zero (Nat.le_zero.1 hlen)
    cases hend
  | succ steps ih =>
    obtain ⟨run', markup, p, inner, rfl, hrun', hm⟩ := exists_markup_of_endsRoot hend
    obtain ⟨htake, hcs⟩ := span_markup hrun' markup
    rw [reading_run hrun'] at hend ⊢
    have hend := hend.of_runEvents
    have hboth (c : Char) (hc : c ∈ run ++ run') : c ≠ '<' :=
      (List.mem_append.1 hc).elim (hrun c) (hrun' c)
    refine .run ?_
    rcases exists_section hm hend with
      ⟨hs, name, ahead, hread⟩ | ⟨used, rest, stays, es, rfl, hs, hp, hsection⟩
    · rw [selectSections_of_none hcs hs, ← List.append_assoc, reading_run hboth, hread]
      exact .finish
    · have hread : reading state ('<' :: (used ++ rest)) = es ++ reading state rest := hp rest
      have hrest : rest.length ≤ steps := by
        simp only [List.length_append, List.length_cons] at hlen
        omega
      rw [hread] at hend ⊢
      have hend := hsection.endsRoot hend
      rw [selectSections_of_some hcs hs, htake]
      cases stays with
      | true =>
        have hkept (back : List Char) : reading state (run ++ (run' ++ '<' :: used ++ back)) =
            runEvents (run ++ run') ++ (es ++ reading state back) := by
          rw [← hp back, List.cons_append, ← reading_run hboth]
          simp
        rw [if_pos rfl, hkept]
        exact hsection.kept (ih hend hrest (List.forall_mem_nil _))
      | false =>
        rw [if_neg Bool.false_ne_true, List.append_nil, ← List.append_assoc]
        exact hsection.omitted (ih hend hrest hboth)

/-! ### The root -/

theorem isText_of_mem_runEvents (h : event ∈ runEvents run) : event.IsText := by
  match hblank : run.dropWhile Text.isBlank with
  | [] =>
    rw [runEvents_of_blank hblank] at h
    cases h
  | c :: raw =>
    rw [runEvents_of_ne_blank hblank] at h
    rw [List.mem_singleton.1 h]
    trivial

/-- Two documents begin with the same root, and inside it the events on the right are those on the left
without the elements that are not selected. -/
def OmitsInRoot (selects : ResolvedName → Bool) (es ts : List Event) : Prop :=
  ∃ past name tag scope es' ts', (∀ event ∈ past, event.IsText) ∧
    es = past ++ .start 0 name tag scope :: es' ∧ ts = past ++ .start 0 name tag scope :: ts' ∧
    Omits selects [] es' ts'

theorem omitsInRoot_start (h : Omits selects [] es ts) :
    OmitsInRoot selects (.start 0 name tag scope :: es) (.start 0 name tag scope :: ts) :=
  ⟨[], name, tag, scope, es, ts, List.forall_mem_nil _, rfl, rfl, h⟩

theorem OmitsInRoot.behind (h : OmitsInRoot selects es ts) (hf : ∀ event ∈ front, event.IsText) :
    OmitsInRoot selects (front ++ es) (front ++ ts) := by
  obtain ⟨past, name, tag, scope, es', ts', hpast, rfl, rfl, ho⟩ := h
  exact ⟨front ++ past, name, tag, scope, es', ts', List.forall_mem_append.2 ⟨hf, hpast⟩,
    (List.append_assoc ..).symm, (List.append_assoc ..).symm, ho⟩

theorem OmitsInRoot.behind_runEvents (h : OmitsInRoot selects es ts) (run : List Char) :
    OmitsInRoot selects (runEvents run ++ es) (runEvents run ++ ts) :=
  h.behind fun _ => isText_of_mem_runEvents

/-- What is left of a text that goes on with `rest` behind its first markup. -/
theorem selectInRoot_markup {cs used rest : List Char} (steps : Nat)
    (hcs : cs.dropWhile (· != '<') = '<' :: (used ++ rest))
    (hm : markupOf (used ++ rest) = .ok (p, rest)) :
    selectInRoot selects (steps + 1) cs =
      match p with
      | .startTag tag false => cs.takeWhile (· != '<') ++ '<' :: used ++
          selectSections selects (Scope.initial.declareAll (tag.attributes false).1).1 steps rest
      | .aside | .cdata _ =>
        cs.takeWhile (· != '<') ++ '<' :: used ++ selectInRoot selects steps rest
      | _ => cs := by
  have hfront : inFront ('<' :: (used ++ rest)) rest = '<' :: used := by
    rw [← List.cons_append, inFront_append]
  cases p with
  | startTag tag empty =>
    cases empty <;> simp only [selectInRoot, hcs, List.tail_cons, hm, hfront]
  | _ => simp only [selectInRoot, hcs, List.tail_cons, hm, hfront]

/-- What is read of the text that is left, from the beginning of the document. -/
theorem omits_selectInRoot {state : ScanState} {cs : List Char} (hscope : state.scope = .initial)
    (hend : EndsRoot 0 (reading state cs)) (hlen : cs.length ≤ steps) :
    OmitsInRoot selects (reading state cs) (reading state (selectInRoot selects steps cs)) := by
  induction steps generalizing state cs with
  | zero =>
    obtain rfl := List.eq_nil_of_length_eq_zero (Nat.le_zero.1 hlen)
    cases hend
  | succ steps ih =>
    obtain ⟨run, markup, p, inner, rfl, hrun, hm⟩ := exists_markup_of_endsRoot hend
    obtain ⟨htake, hcs⟩ := span_markup hrun markup
    obtain ⟨used, rfl, hp⟩ := exists_passes_markup state hrun hm
    have hrest : inner.length ≤ steps := by
      simp only [List.length_append, List.length_cons] at hlen
      omega
    have hsplit : run ++ '<' :: (used ++ inner) = run ++ '<' :: used ++ inner := by simp
    rw [hsplit, hp, List.append_assoc] at hend
    have hend := hend.of_runEvents
    have hfound := ScanState.find_of_endsRoot hend
    rw [selectInRoot_markup steps hcs hm, htake, hsplit, hp, List.append_assoc]
    cases p with
    | aside =>
      rw [hp, List.append_assoc]
      exact (@ih state.unplaced _ hscope hend hrest).behind_runEvents run
    | cdata content =>
      rw [hp, List.append_assoc]
      have htext (event : Event) (h : event ∈ [.cdata 0 content]) : event.IsText :=
        List.mem_singleton.1 h ▸ trivial
      exact ((@ih state.unplaced _ hscope hend.of_cdata hrest).behind htext).behind_runEvents run
    | startTag tag empty =>
      cases empty with
      | true =>
        rw [hp, List.append_assoc]
        simp only [↓reduceIte] at hfound
        rw [hfound]
        exact (omitsInRoot_start .finish).behind_runEvents run
      | false =>
        rw [hp, List.append_assoc]
        simp only [Bool.false_eq_true, ↓reduceIte] at hfound
        have hinside : state.unplaced.scope = .initial := hscope
        rw [hfound] at hend ⊢
        rw [← hinside]
        exact (omitsInRoot_start
          (omits_selectSections hend.of_start hrest (List.forall_mem_nil _))).behind_runEvents run
    | namelessDoctype => exact hfound.elim
    | endTag name =>
      obtain ⟨outer, _, hfound⟩ := hfound
      rw [hfound] at hend
      cases hend

theorem selectInRoot_cons (hc : c ≠ '<') (steps : Nat) (cs : List Char) :
    selectInRoot selects steps (c :: cs) = c :: selectInRoot selects steps cs := by
  have hp : (c != '<') = true := bne_iff_ne.2 hc
  cases steps with
  | zero => rfl
  | succ steps =>
    simp only [selectInRoot, List.takeWhile_cons, List.dropWhile_cons, hp, ↓reduceIte]
    split <;> rfl

theorem exists_selectInRoot_markup (steps : Nat) (cs : List Char) :
    ∃ back, selectInRoot selects steps ('<' :: cs) = '<' :: back := by
  have hdrop : ('<' :: cs).dropWhile (· != '<') = '<' :: cs := rfl
  have htake : ('<' :: cs).takeWhile (· != '<') = [] := rfl
  have hfront {p : Piece} {rest : List Char} (hm : markupOf cs = .ok (p, rest)) (back : List Char) :
      ∃ more, [] ++ inFront ('<' :: cs) rest ++ back = '<' :: more := by
    obtain ⟨used, rfl⟩ := suffix_of_markupOf hm
    exact ⟨used ++ back, by rw [← List.cons_append, inFront_append]; rfl⟩
  cases steps with
  | zero => exact ⟨cs, rfl⟩
  | succ steps =>
    simp only [selectInRoot, hdrop, htake, List.tail_cons]
    split
    · next hm => exact hfront hm _
    · next hm => exact hfront hm _
    · next hm => exact hfront hm _
    · exact ⟨cs, rfl⟩

theorem withoutMark_selectInRoot (steps : Nat) (cs : List Char) :
    withoutMark (selectInRoot selects steps cs) = selectInRoot selects steps (withoutMark cs) := by
  have hkept {c : Char} (hc : c ≠ '\ufeff') (cs : List Char) : withoutMark (c :: cs) = c :: cs := by
    simp [withoutMark, hc]
  cases cs with
  | nil =>
    cases steps <;> rfl
  | cons c cs =>
    by_cases hopen : c = '<'
    · subst hopen
      obtain ⟨back, hback⟩ := @exists_selectInRoot_markup selects steps cs
      rw [hkept (by decide), hback, hkept (by decide)]
    · rw [selectInRoot_cons hopen]
      by_cases hmark : c = '\ufeff'
      · subst hmark
        rfl
      · rw [hkept hmark, hkept hmark, selectInRoot_cons hopen]

/-- What is read of a document and of the text that is left of it. -/
theorem omits_selectedSections {source : String} (h : EndsRoot 0 (events source)) :
    OmitsInRoot selects ((events source).map Event.unplaced)
      ((events (selectedSections selects source)).map Event.unplaced) := by
  rw [← endsRoot_unplaced, unplaced_events] at h
  rw [unplaced_events, unplaced_events, selectedSections, String.toList_ofList,
    withoutMark_selectInRoot]
  exact omits_selectInRoot rfl h (length_withoutMark _)

end ManagementScript.Xml
