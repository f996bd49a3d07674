import ManagementScript.Proofs.Run.Sections

/-!
Sections of a document besides its management element. Whatever is inside them, they make no difference to
the script, as long as they can be skipped.
-/

namespace ManagementScript

namespace Run

/-- The root of the document is one that has sections: a server, a host or a domain. -/
def HasSections (source : String) : Prop :=
  ∃ c, (Cursor.ofString source).next = (.ok .start, c) ∧
    (ElementName.ofString c.localName).isDocumentRoot = true

/-- Everything inside the root of the document can be read: the character data there has a meaning, and
every element there can be skipped. -/
def IsReadable (source : String) : Prop :=
  ∃ c, (Cursor.ofString source).next = (.ok .start, c) ∧ c.Skims

/-- The text of the document without the children of its root that are not management elements of the
grammar. -/
def withoutOthers (grammar : GrammarNamespace) (source : String) : String :=
  Xml.selectedSections grammar.isManagement source

theorem IsReadable.endsRoot {source : String} (h : IsReadable source) :
    Xml.EndsRoot 0 (Xml.events source) := by
  obtain ⟨c, hc, hs⟩ := h
  have hopened : c.opened = [c.localName] := (Cursor.next_start_moves hc).1
  exact Cursor.Lands.endsRoot_of_start (hc ▸ Cursor.next_lands _) (hs.endsRoot (congrArg _ hopened))

theorem endsRoot_of_yields {r : Request} {source : String} (h : Yields r source script grammar) :
    Xml.EndsRoot 0 (Xml.events source) := by
  obtain ⟨_, hm, _⟩ := yields_iff.1 h
  exact DocumentCompilation.endsRoot_of_document hm

/-- The text that is left has the same root. -/
theorem exists_root (grammar : GrammarNamespace) {source : String} {c : Cursor}
    (h : Xml.EndsRoot 0 (Xml.events source))
    (hc : (Cursor.ofString source).next = (.ok .start, c)) : ∃ c',
    (Cursor.ofString (withoutOthers grammar source)).next = (.ok .start, c') ∧ c.SameTag c' ∧
      Xml.Omits grammar.isManagement [] c.marks c'.marks := by
  obtain ⟨past, name, tag, scope, es, ts, hpast, hm, hm', homits⟩ :=
    @Xml.omits_selectedSections grammar.isManagement source h
  obtain ⟨_, rfl, c', hc', hsame, rfl⟩ := @Cursor.next_transfer _ _ _ _ (.ofString source)
    (.ofString (withoutOthers grammar source)) _ _ _ _ hpast hm hm' rfl hc
  exact ⟨c', hc', hsame, homits⟩

/-- A document gives a script exactly if it gives it without its other sections, and these can be
skipped. -/
theorem yields_iff_withoutOthers {r : Request} {source : String} (hroot : HasSections source) :
    Yields r source script grammar ↔
      IsReadable source ∧ Yields r (withoutOthers grammar source) script grammar := by
  obtain ⟨c, hc, hroot⟩ := hroot
  have hsame (h : Xml.EndsRoot 0 (Xml.events source)) : Yields r source script grammar ↔
      c.Skims ∧ Yields r (withoutOthers grammar source) script grammar := by
    obtain ⟨c', hc', hsame, homits⟩ := exists_root grammar h hc
    rw [yields_iff, yields_iff, DocumentCompilation.document_iff hc hroot,
      DocumentCompilation.document_iff hc' (hsame.localName ▸ hroot), hsame.namespaceUri]
    simp only [Cursor.holdsOne_iff homits hsame.opened, and_assoc, exists_and_left]
    exact and_left_comm
  apply Iff.intro
  · intro h
    obtain ⟨hs, hyields⟩ := (hsame (endsRoot_of_yields h)).1 h
    exact ⟨⟨c, hc, hs⟩, hyields⟩
  · intro h
    obtain ⟨hread, hyields⟩ := h
    obtain ⟨c₁, hc₁, hs⟩ := id hread
    cases hc.symm.trans hc₁
    exact (hsame hread.endsRoot).2 ⟨hs, hyields⟩

/-- Which children the root of an accepted document has besides management elements of its grammar makes
no difference: without them it gives the same script, and so does every document that is the same
without them, if all that is inside its root can be read. -/
theorem other_sections_irrelevant {r : Request} {source : String} (hroot : HasSections source)
    (h : Yields r source script grammar) :
    Yields r (withoutOthers grammar source) script grammar ∧
      ∀ source', withoutOthers grammar source' = withoutOthers grammar source → IsReadable source' →
        Yields r source' script grammar := by
  obtain ⟨_, hyields⟩ := (yields_iff_withoutOthers hroot).1 h
  refine ⟨hyields, fun source' he hread => ?_⟩
  have hroot' : HasSections source' := by
    obtain ⟨c, hc, hroot⟩ := hroot
    obtain ⟨c', hc', hsame, _⟩ := exists_root grammar (endsRoot_of_yields h) hc
    obtain ⟨c₁, hc₁, _⟩ := id hread
    obtain ⟨c₁', hc₁', hsame₁, _⟩ := exists_root grammar hread.endsRoot hc₁
    rw [he] at hc₁'
    cases hc'.symm.trans hc₁'
    exact ⟨c₁, hc₁, by rw [← hsame₁.localName, hsame.localName, hroot]⟩
  exact (yields_iff_withoutOthers hroot').2 ⟨hread, he ▸ hyields⟩

namespace SectionsSample

def bare : String :=
  "<server xmlns='urn:jboss:domain:4.2'>\n<management><configuration-changes max-history='5'/>" ++
    "</management> </server>"

/-- The same with other sections, one of them with a management element inside, and one a management
element of no grammar. -/
def full : String :=
  "<server xmlns='urn:jboss:domain:4.2'>\n<a><management><b/></management>text</a>" ++
    "<management><configuration-changes max-history='5'/></management> <management xmlns='urn:x'/>" ++
      "</server>"

theorem withoutOthers_full : withoutOthers .domain42 full = bare := by decide +kernel

theorem withoutOthers_bare : withoutOthers .domain42 bare = bare := by decide +kernel

theorem hasSections_of_next {source : String}
    (h : (Cursor.ofString source).next.1 = .ok .start ∧
      (ElementName.ofString (Cursor.ofString source).next.2.localName).isDocumentRoot = true) :
    HasSections source :=
  ⟨_, Prod.ext h.1 rfl, h.2⟩

theorem hasSections_full : HasSections full := hasSections_of_next (by decide +kernel)

theorem hasSections_bare : HasSections bare := hasSections_of_next (by decide +kernel)

theorem outcome_full : (ofSource EmptySample.request full).outcome.1.toOption.map
    (fun result => (result.script.size, result.grammar)) = some (1, .domain42) := by decide +kernel

theorem yields_full : ∃ script, script.size = 1 ∧ Yields EmptySample.request full script .domain42 := by
  obtain ⟨result, hr, hfacts⟩ := Option.map_eq_some_iff.1 outcome_full
  obtain ⟨hsize, hgrammar⟩ := Prod.mk.inj hfacts
  exact ⟨result.script, hsize, result, toOption_eq_some_iff.1 hr, rfl, hgrammar⟩

end SectionsSample

open SectionsSample in
/-- Sections with a management element inside may be taken out and put in. -/
theorem other_sections_irrelevant_nested : ∃ script, script.size = 1 ∧
    Yields EmptySample.request full script .domain42 ∧
    Yields EmptySample.request bare script .domain42 := by
  obtain ⟨script, hsize, hfull⟩ := yields_full
  have hbare := (other_sections_irrelevant hasSections_full hfull).1
  rw [withoutOthers_full] at hbare
  have hread := ((yields_iff_withoutOthers hasSections_full).1 hfull).1
  have hagain := (other_sections_irrelevant hasSections_bare hbare).2 full
    (withoutOthers_full.trans withoutOthers_bare.symm) hread
  exact ⟨script, hsize, hagain, hbare⟩

end Run

end ManagementScript
