import Mathlib.Logic.Relation
import ManagementScript.Proofs.Management.Respacing
import ManagementScript.Proofs.Run.ChildOrder
import ManagementScript.Proofs.Run.Trailing
import ManagementScript.Proofs.Tree.Layout

/-!
Documents that differ in their layout. White space, comments and processing instructions may be put
between two tags, and an element that is empty may be written as one tag or as two: the document is
accepted like the first one, with the same script. The text of a password is left as it is.
-/

namespace ManagementScript

namespace Xml

/-! ### Character data -/

theorem readable_runEvents_iff :
    (∀ event ∈ runEvents run, event.text?.isSome) ↔ ∃ out, Resolves run out := by
  cases h : run.dropWhile Text.isBlank with
  | nil =>
    obtain ⟨out, hout, _⟩ := isBlankRun_of_isBlank (List.dropWhile_eq_nil_iff.1 h)
    rw [runEvents_of_blank h]
    exact iff_of_true (List.forall_mem_nil _) ⟨out, hout⟩
  | cons =>
    rw [runEvents_of_ne_blank h, List.forall_mem_singleton, ← resolves_trim_iff]
    apply Iff.intro
    · intro hread
      obtain ⟨content, hread⟩ := Option.isSome_iff_exists.1 hread
      exact ⟨_, resolveReferences_eq_ok_iff.1 (toOption_eq_some_iff.1 hread)⟩
    · intro hout
      obtain ⟨out, hout⟩ := hout
      rw [← @String.toList_ofList out] at hout
      exact Option.isSome_iff_exists.2
        ⟨_, toOption_eq_some_iff.2 (resolveReferences_eq_ok_iff.2 hout)⟩

theorem blank_runEvents_iff : (∀ event ∈ runEvents run, event.IsBlank) ↔ IsBlankRun run := by
  cases h : run.dropWhile Text.isBlank with
  | nil =>
    rw [runEvents_of_blank h]
    exact iff_of_true (List.forall_mem_nil _) (isBlankRun_of_isBlank (List.dropWhile_eq_nil_iff.1 h))
  | cons =>
    rw [runEvents_of_ne_blank h, List.forall_mem_singleton, ← isBlankRun_trim_iff, isBlankRun_iff]
    simp only [Event.IsBlank, Event.text?, toOption_eq_some_iff]

/-! ### Between two tags -/

/-- Character data that is read from the run, from the rest, and from white space between them. -/
structure Between (run rest : List Char) (texts : List Event) : Prop where
  isText : ∀ event ∈ texts, event.IsText
  readable : (∃ out, Resolves run out) → (∃ out, Resolves rest out) →
    ∀ event ∈ texts, event.text?.isSome
  blank : IsBlankRun run → IsBlankRun rest → ∀ event ∈ texts, event.IsBlank

namespace Between

theorem together (run rest : List Char) : Between run rest (runEvents (run ++ rest)) where
  isText _ := isText_of_mem_runEvents
  readable hrun hrest := by
    obtain ⟨_, hrun⟩ := hrun
    obtain ⟨_, hrest⟩ := hrest
    exact readable_runEvents_iff.2 ⟨_, hrun.append hrest⟩
  blank hrun hrest := blank_runEvents_iff.2 (hrun.append hrest)

theorem before_blank (h : Between (run ++ [c]) rest texts) (hc : Text.isBlank c = true) :
    Between run rest texts := by
  have hblank : IsBlankRun [c] := isBlankRun_of_isBlank (List.forall_mem_singleton.2 hc)
  refine ⟨h.isText, fun hrun => ?_, fun hrun => h.blank (hrun.append hblank)⟩
  obtain ⟨_, hrun⟩ := hrun
  obtain ⟨_, hout, _⟩ := hblank
  exact h.readable ⟨_, hrun.append hout⟩

theorem before_aside (h : Between [] rest texts) : Between run rest (runEvents run ++ texts) where
  isText := List.forall_mem_append.2 ⟨fun _ => isText_of_mem_runEvents, h.isText⟩
  readable hrun hrest :=
    List.forall_mem_append.2 ⟨readable_runEvents_iff.2 hrun, h.readable ⟨[], .nil⟩ hrest⟩
  blank hrun hrest :=
    List.forall_mem_append.2 ⟨blank_runEvents_iff.2 hrun, h.blank isBlankRun_nil hrest⟩

/-- It may stand in the place of the run with the rest behind it. -/
theorem respaces (h : Between run rest texts) (hcut : ¬CutsReference run rest)
    (hin : ¬InPassword opened) : Respaces opened (runEvents (run ++ rest)) texts where
  isText _ := isText_of_mem_runEvents
  isText' := h.isText
  readable hread := by
    obtain ⟨_, hall⟩ := readable_runEvents_iff.1 hread
    obtain ⟨out, hrun⟩ := hall.exists_front hcut
    obtain ⟨out', hrest, _⟩ := hrun.behind hall
    exact h.readable ⟨out, hrun⟩ ⟨out', hrest⟩
  blank hblank := by
    have hall := blank_runEvents_iff.1 hblank
    have ⟨_, hread, _⟩ := hall
    obtain ⟨out, hrun⟩ := hread.exists_front hcut
    obtain ⟨hrun, hrest⟩ := hall.split hrun
    exact h.blank hrun hrest
  password hpassword := absurd hpassword hin

end Between

theorem piece_comment (he : enclosed ('!' :: '-' :: '-' :: cs) = .ok (content, rest)) :
    piece content = .ok .aside := by
  have hcs := enclosed_eq he
  match content with
  | [] | ['!'] | ['!', '-'] => simp at hcs
  | c₁ :: c₂ :: c₃ :: content =>
    obtain ⟨rfl, rfl, rfl, _⟩ : '!' = c₁ ∧ '-' = c₂ ∧ '-' = c₃ ∧ cs = content ++ '>' :: rest := by
      simpa using hcs
    rfl

/-- Markup that leaves no event is passed over, whatever follows it. -/
theorem reading_aside (he : enclosed cs = .ok (content, rest)) (hp : piece content = .ok .aside) :
    ∃ used, cs = used ++ rest ∧
      ∀ state back, reading state ('<' :: (used ++ back)) = reading state back := by
  obtain ⟨used, rfl, hback⟩ := enclosed_split he
  refine ⟨used, rfl, fun state back => ?_⟩
  rw [reading_markup rfl (markupOf_eq_ok_iff.2 ⟨content, hback back, hp⟩)]
  exact reading_congr rfl

/-- In front of markup, no more than white space is read between the run and the rest. -/
def Fills (state : ScanState) (run filler rest : List Char) : Prop :=
  ∀ back, ∃ texts, Between run rest texts ∧
    reading state (run ++ (filler ++ (rest ++ '<' :: back))) = texts ++ reading state ('<' :: back)

theorem Fills.aside (h : Fills state [] cs rest) (hrun : ∀ c ∈ run, c ≠ '<')
    (hused : ∀ state back, reading state ('<' :: (used ++ back)) = reading state back) :
    Fills state run ('<' :: (used ++ cs)) rest := by
  intro back
  obtain ⟨texts, hbetween, hread⟩ := h back
  rw [List.nil_append] at hread
  refine ⟨_, hbetween.before_aside, ?_⟩
  rw [List.cons_append, List.append_assoc, reading_run hrun, hused, hread, List.append_assoc]

theorem IsMisc.fills (h : IsMisc filler) (hrun : ∀ c ∈ run, c ≠ '<') (hrest : ∀ c ∈ rest, c ≠ '<')
    (state : ScanState) : Fills state run filler rest := by
  -- White space joins the run in front of it; a comment or an instruction ends that run.
  induction h generalizing run with
  | nil =>
    intro back
    refine ⟨_, .together run rest, ?_⟩
    rw [List.nil_append, ← List.append_assoc, reading_run (List.forall_mem_append.2 ⟨hrun, hrest⟩)]
  | @blank c cs hc _ ih =>
    intro back
    have hopening : c ≠ '<' := by
      rintro rfl
      cases hc
    obtain ⟨texts, hbetween, hread⟩ :=
      ih (List.forall_mem_append.2 ⟨hrun, List.forall_mem_singleton.2 hopening⟩) back
    rw [List.append_assoc] at hread
    exact ⟨texts, hbetween.before_blank hc, hread⟩
  | comment he _ ih =>
    obtain ⟨used, hcs, hused⟩ := reading_aside he (piece_comment he)
    rw [hcs]
    exact (ih (List.forall_mem_nil _)).aside hrun hused
  | instruction he hp _ ih =>
    obtain ⟨used, hcs, hused⟩ := reading_aside he hp
    rw [hcs]
    exact (ih (List.forall_mem_nil _)).aside hrun hused

/-! ### Elements that are empty -/

/-- The piece is what the content stands for between `<` and `>`, whatever follows it. -/
structure IsMarkup (content : List Char) (p : Piece) : Prop where
  enclosed : ∀ rest, enclosed (content ++ '>' :: rest) = .ok (content, rest)
  piece : piece content = .ok p

theorem IsMarkup.reading (h : IsMarkup content p) (state : ScanState) (rest : List Char) :
    reading state ('<' :: (content ++ '>' :: rest)) =
      (state.unplaced.find p).2 ++ reading (state.unplaced.find p).1 rest :=
  reading_markup rfl (markupOf_eq_ok_iff.2 ⟨content, h.enclosed rest, h.piece⟩)

/-- An element that is written as one tag is written as a start tag and its end tag. -/
inductive IsPair : (single first last : List Char) → Prop where
  | mk (hs : IsMarkup single (.startTag tag true)) (hf : IsMarkup first (.startTag tag' false))
      (hl : IsMarkup last (.endTag tag.name)) (hn : tag'.name = tag.name)
      (ha : tag'.attributes = tag.attributes) : IsPair single first last

namespace ScanState

theorem start_rewrites (state : ScanState) (hn : tag'.name = tag.name)
    (ha : tag'.attributes = tag.attributes) : (state.start offset tag').1 = (state.start offset tag).1 ∧
      (state.start offset tag).2.Rewrites (state.start offset tag').2 := by
  simp only [start, hn, ha]
  split
  · exact ⟨rfl, .fault⟩
  · exact ⟨rfl, .start ha⟩

theorem opened_start (state : ScanState) (offset : Nat) (tag : TagText) :
    (state.start offset tag).1.opened = tag.name :: state.opened := by
  simp only [start]
  split
  · rfl
  · rfl

theorem endTag_start (state : ScanState) (tag : TagText) :
    (state.start 0 tag).1.unplaced.endTag 0 0 tag.name =
      (state.start 0 tag).1.unplaced.finish 0 tag.name := by
  have hopened : (state.start 0 tag).1.unplaced.opened = tag.name :: state.opened :=
    state.opened_start 0 tag
  simp only [endTag, hopened, BEq.rfl, ↓reduceIte]

/-- The same is found in the one tag and in the two. -/
theorem find_pair (state : ScanState) (hn : tag'.name = tag.name)
    (ha : tag'.attributes = tag.attributes) : ∃ event event' closing state' inside,
      event.Rewrites event' ∧ state.find (.startTag tag true) = (state', [event, closing]) ∧
      state.find (.startTag tag' false) = (inside, [event']) ∧
      inside.unplaced.find (.endTag tag.name) = (state', [closing]) := by
  obtain ⟨hstate, hevent⟩ := @start_rewrites 0 _ _ state hn ha
  refine ⟨_, _, _, _, _, hevent.unplaced, rfl, rfl, ?_⟩
  have hinside : ((state.start 0 tag').1.unplaced).unplaced = (state.start 0 tag).1.unplaced := by
    rw [hstate]
    rfl
  obtain ⟨hclosed, hclosing⟩ := @finish_unplaced (state.start 0 tag).1.unplaced (state.start 0 tag).1
    rfl 0 0 tag.name
  simp only [find, read, hinside, endTag_start, hclosed, hclosing, List.map_cons, List.map_nil]

end ScanState

theorem IsPair.exists_reading (h : IsPair single first last) (state : ScanState) :
    ∃ event event' closing state', event.Rewrites event' ∧
      (∀ back, reading state ('<' :: (single ++ '>' :: back)) =
        event :: closing :: reading state' back) ∧
      ∀ back, reading state ('<' :: (first ++ '>' :: '<' :: (last ++ '>' :: back))) =
        event' :: closing :: reading state' back := by
  obtain ⟨hs, hf, hl, hn, ha⟩ := h
  obtain ⟨event, event', closing, state', inside, hrewrites, hsingle, hfirst, hlast⟩ :=
    state.unplaced.find_pair hn ha
  refine ⟨event, event', closing, state', hrewrites, fun back => ?_, fun back => ?_⟩
  · rw [hs.reading, hsingle]
    rfl
  · rw [hf.reading, hfirst, hl.reading, hlast]
    rfl

/-! ### Documents -/

/-- In the second document white space, comments and processing instructions are put between two tags or
in front of the root, or an element that is written as one tag is written as two, or the other way
round. -/
inductive Relaid (source source' : String) : Prop where
  | fill (ht : Passes .initial front es state) (hin : ¬InPassword (es.foldl Event.openAfter []))
      (hrun : ∀ c ∈ run ++ rest, c ≠ '<') (hcut : ¬CutsReference run rest) (hf : IsMisc filler)
      (hs : withoutMark source.toList = front ++ (run ++ (rest ++ '<' :: back)))
      (hs' : withoutMark source'.toList = front ++ (run ++ (filler ++ (rest ++ '<' :: back))))
  | split (ht : Passes .initial front es state) (hrun : ∀ c ∈ run, c ≠ '<')
      (hp : IsPair single first last)
      (hs : withoutMark source.toList = front ++ (run ++ '<' :: (single ++ '>' :: back)))
      (hs' : withoutMark source'.toList =
        front ++ (run ++ '<' :: (first ++ '>' :: '<' :: (last ++ '>' :: back))))
  | join (ht : Passes .initial front es state) (hrun : ∀ c ∈ run, c ≠ '<')
      (hp : IsPair single first last)
      (hs : withoutMark source.toList =
        front ++ (run ++ '<' :: (first ++ '>' :: '<' :: (last ++ '>' :: back))))
      (hs' : withoutMark source'.toList = front ++ (run ++ '<' :: (single ++ '>' :: back)))

theorem Passes.respaced (ht : Passes .initial front es state) (hrun : ∀ c ∈ run, c ≠ '<')
    (hr : event.Rewrites event') (h : reading state ('<' :: cs) = event :: more)
    (h' : reading state ('<' :: cs') = event' :: more) :
    Respaced [] (reading .initial (front ++ (run ++ '<' :: cs)))
      (reading .initial (front ++ (run ++ '<' :: cs'))) := by
  rw [ht, ht, reading_run hrun, reading_run hrun, h, h']
  have hsame : Respaces (es.foldl Event.openAfter []) (runEvents run) (runEvents run) :=
    .same fun _ => isText_of_mem_runEvents
  exact .append es (.tag hsame hr (.refl _ _))

/-- The same is read but for white space and the writing of tags. -/
theorem Relaid.respaced (h : Relaid source source') :
    Respaced [] (reading .initial (withoutMark source.toList))
      (reading .initial (withoutMark source'.toList)) := by
  cases h with
  | fill ht hin hrun hcut hf hs hs' =>
    obtain ⟨hleft, hright⟩ := List.forall_mem_append.1 hrun
    obtain ⟨texts, hbetween, hread⟩ := hf.fills hleft hright _ _
    rw [hs, hs', ht, ht, hread, ← List.append_assoc, reading_run hrun]
    exact .append _ (.behind_texts (hbetween.respaces hcut hin) (.refl _ _))
  | split ht hrun hp hs hs' =>
    obtain ⟨event, event', closing, state', hrewrites, hsingle, hpair⟩ := hp.exists_reading _
    rw [hs, hs']
    exact ht.respaced hrun hrewrites (hsingle _) (hpair _)
  | join ht hrun hp hs hs' =>
    obtain ⟨event, event', closing, state', hrewrites, hsingle, hpair⟩ := hp.exists_reading _
    rw [hs, hs']
    exact ht.respaced hrun hrewrites.symm (hpair _) (hsingle _)

end Xml

namespace Run

/-- The management element of the other document differs in its white space only. -/
theorem HasManagement.respaced {source source' : String} (h : HasManagement source grammar m)
    (hr : Xml.Relaid source source') : ∃ m', HasManagement source' grammar m' ∧ m.Respaced m' := by
  obtain ⟨c, hc, hg, hm⟩ := h
  have hmarks : Xml.Respaced (Cursor.ofString source).opened (Cursor.ofString source).marks
      (Cursor.ofString source').marks := by
    rw [Cursor.marks_ofString, Cursor.marks_ofString]
    exact hr.respaced
  obtain ⟨c', hc', hsame, hin⟩ := Cursor.next_respaced hmarks rfl hc (by simp)
  obtain ⟨hmanagement, d, hspans⟩ | ⟨hdocument, hone⟩ := hm
  · have hname : c.opened.head? = some c.localName := by
      rw [(Cursor.next_start_moves hc).1]
      rfl
    obtain ⟨m', d', hspans', hrespaced⟩ := hspans.respaced hin hsame hname
    exact ⟨m', .of_sameTag hc' hsame hg (.inl ⟨hmanagement, d', hspans'⟩), hrespaced⟩
  · obtain ⟨m', hone', hrespaced⟩ := hone.respaced hin hsame.opened
    exact ⟨m', .of_sameTag hc' hsame hg (.inr ⟨hdocument, hone'⟩), hrespaced⟩

end Run

namespace DocumentCompilation

theorem IsCompiled.respaced {m m' : Element} {o : RunOptions} {script script' : Script}
    (h : IsCompiled grammar o script m script') (hr : m.Respaced m') :
    IsCompiled grammar o script m' script' := by
  obtain ⟨hmanagement, hcommands⟩ := hr.isManagement h.management
  exact ⟨hmanagement, h.native, hcommands o.base ▸ h.room, hcommands o.base ▸ h.script⟩

end DocumentCompilation

namespace Run

theorem Yields.relaid {r : Request} {source source' : String} (h : Yields r source script grammar)
    (hr : Xml.Relaid source source') : Yields r source' script grammar := by
  obtain ⟨m, hm, hcompiled⟩ := DocumentCompilation.document_iff_management.1 (yields_iff.1 h)
  obtain ⟨m', hm', hrespaced⟩ := hm.respaced hr
  exact yields_iff.2 (DocumentCompilation.document_iff_management.2
    ⟨m', hm', hcompiled.respaced hrespaced⟩)

/-- However often the layout of an accepted document is changed, the document is accepted, and gives the
same commands in the same grammar. -/
theorem layout_ignored {r : Request} {source source' : String} (h : Yields r source script grammar)
    (hr : Relation.ReflTransGen Xml.Relaid source source') : Yields r source' script grammar := by
  induction hr with
  | refl => exact h
  | tail _ hr ih => exact ih.relaid hr

namespace LayoutSample

open Xml ConnectionsSample

/-- What stands before and behind the first connection. -/
def front : List Char := tag "management xmlns='urn:jboss:domain:4.2'" ++ tag "outbound-connections"

def back : List Char := " <ldap name='b' url='u'></ldap></outbound-connections></management>".toList

def filler : List Char := " <!-- none --><?x?>".toList

/-- The connections, the first of them with a start tag and an end tag. -/
def paired : String := String.ofList (front ++ (tag "ldap name='a' url='u' " ++ (tag "/ldap" ++ back)))

/-- The same with white space, a comment and a processing instruction between the two tags. -/
def filled : String :=
  String.ofList (front ++ (tag "ldap name='a' url='u' " ++ (filler ++ (tag "/ldap" ++ back))))

def pairedTag : TagText := ⟨"ldap".toList, " name='a' url='u' ".toList⟩

theorem attributes_pairedTag : pairedTag.attributes = firstTag.attributes := by
  funext distinct
  cases distinct
  · decide
  · decide

theorem isMarkup_pairedTag :
    IsMarkup "ldap name='a' url='u' ".toList (.startTag pairedTag false) := ⟨fun _ => rfl, rfl⟩

theorem isPair : IsPair "ldap name='a' url='u'/".toList "ldap name='a' url='u' ".toList
    "/ldap".toList :=
  @IsPair.mk _ firstTag _ pairedTag _ ⟨fun _ => rfl, rfl⟩ isMarkup_pairedTag ⟨fun _ => rfl, rfl⟩ rfl
    attributes_pairedTag

theorem isMisc_filler : IsMisc filler := .blank rfl (.comment rfl (.instruction rfl rfl .nil))

theorem withoutMark_paired : withoutMark paired.toList =
    front ++ (tag "ldap name='a' url='u' " ++ (tag "/ldap" ++ back)) := by
  rw [paired, String.toList_ofList]
  rfl

theorem relaid_paired : Relaid source paired := by
  have hs : withoutMark source.toList =
      front ++ ([] ++ '<' :: ("ldap name='a' url='u'/".toList ++ '>' :: back)) := by decide +kernel
  exact .split (passes_root.append passes_section) (List.forall_mem_nil _) isPair hs withoutMark_paired

theorem relaid_filled : Relaid paired filled := by
  have hstart : Passes inSection (tag "ldap name='a' url='u' ")
      [.start 0 (name "ldap") pairedTag scope] inConnection :=
    Passes.markup (p := .startTag pairedTag false) (fun _ => rfl) rfl
  have hs' : withoutMark filled.toList =
      front ++ (tag "ldap name='a' url='u' " ++ (filler ++ (tag "/ldap" ++ back))) := by
    rw [filled, String.toList_ofList]
    rfl
  have hcut : ¬CutsReference [] [] := by
    rintro ⟨_, _, hrun, _⟩
    exact absurd (List.suffix_nil.1 hrun) (List.cons_ne_nil _ _)
  rw [← List.append_assoc] at hs'
  exact .fill ((passes_root.append passes_section).append hstart)
    (show ¬some (ElementName.ofString "ldap") = some .password by decide) (List.forall_mem_nil _) hcut
    isMisc_filler (withoutMark_paired.trans (List.append_assoc ..).symm) hs'

end LayoutSample

open ConnectionsSample LayoutSample in
/-- An empty connection may be written as two tags, with white space, a comment and an instruction between
them. -/
theorem layout_ignored_connection : ∃ script, Yields EmptySample.request source script .domain42 ∧
    Yields EmptySample.request filled script .domain42 := by
  obtain ⟨script, h⟩ := yields
  exact ⟨script, h, layout_ignored h (.tail (.single relaid_paired) relaid_filled)⟩

end Run

end ManagementScript
