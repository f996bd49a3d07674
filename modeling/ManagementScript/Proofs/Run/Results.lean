import ManagementScript.CommandLine
import ManagementScript.Proofs.Run.Loading
import ManagementScript.Proofs.Run.Sections

/-!
What a run over a document gives: the commands of its management element, which is the root or the one
section of the root that is such an element.
-/

namespace ManagementScript

namespace Run

/-- The element is the management element of the document, in the grammar of its root. -/
def HasManagement (source : String) (grammar : GrammarNamespace) (e : Element) : Prop :=
  ∃ c, (Cursor.ofString source).next = (.ok .start, c) ∧
    c.namespaceUri.bind GrammarNamespace.ofUri? = some grammar ∧
    (ElementName.ofString c.localName = .management ∧ (∃ d, c.Spans e d) ∨
      (ElementName.ofString c.localName).isDocumentRoot = true ∧
        c.HoldsOne grammar.isManagement e)

end Run

namespace DocumentCompilation

variable {grammar : GrammarNamespace} {o : RunOptions}

theorem readRoot_management {s : CompilationState Unit}
    (hroot : ElementName.ofString s.cursor.localName = .management) :
    readRoot grammar o s = management grammar o s := by
  rw [readRoot, getCursor_bind, hroot]
  rfl

/-- A document is compiled where it has a management element whose commands can be added. -/
theorem document_iff_management {source : String} :
    (∃ s', document o (Compilation.start source ()) = (.ok grammar, s') ∧ s'.script = script) ↔
      ∃ e, Run.HasManagement source grammar e ∧ IsCompiled grammar o .empty e script := by
  apply Iff.intro
  · intro h
    obtain ⟨s', h, hs'⟩ := h
    obtain ⟨c, hc, hg, hr⟩ := document_eq_ok.1 h
    by_cases hroot : ElementName.ofString c.localName = .management
    · rw [readRoot_management hroot] at hr
      obtain ⟨e, d, he, hm, hnative, hroom, hs⟩ :=
        Compilation.management_eq_ok_iff.1 (ofCompilation_eq_ok hr)
      have hscript := hs.script.toList
      rw [hs'] at hscript
      exact ⟨e, ⟨c, hc, hg, .inl ⟨hroot, d, he⟩⟩, hm, hnative, hroom, hscript⟩
    · have hsections : (ElementName.ofString c.localName).isDocumentRoot = true := by
        by_contra hne
        rw [readRoot, getCursor_bind] at hr
        simp only [onRoot, beq_iff_eq, hroot, hne, ↓reduceIte, Bool.false_eq_true] at hr
        cases hr
      obtain ⟨_, e, hone, hcompiled⟩ := (document_iff hc hsections).1 ⟨s', h, hs'⟩
      exact ⟨e, ⟨c, hc, hg, .inr ⟨hsections, hone⟩⟩, hcompiled⟩
  · intro h
    obtain ⟨e, ⟨c, hc, hg, ⟨hroot, d, he⟩ | ⟨hsections, hone⟩⟩, hcompiled⟩ := h
    · obtain ⟨s', hs⟩ := (onRoot (Compilation.start source ()) grammar c).exists_after
        (fun _ => hcompiled.room) d (Compilation.managementReports grammar o.base e)
      have hm := Compilation.management_eq_ok_iff.2
        ⟨e, d, he, hcompiled.management, hcompiled.native, hcompiled.room, hs⟩
      refine ⟨s', document_eq_ok.2 ⟨c, hc, hg, ?_⟩,
        Script.ext_toList (hs.script.toList.trans hcompiled.script.symm)⟩
      rw [readRoot_management hroot]
      exact ofCompilation_of_eq_ok hm
    · exact (document_iff hc hsections).2 ⟨hg, e, hone, hcompiled⟩

end DocumentCompilation

namespace Run

/-- A run over the text comes to the result, or a run over a file with that text. -/
inductive Gives (r : Request) : String → RunResult → Prop where
  | text (h : (ofSource r source).outcome.1 = .ok result) : Gives r source result
  | file (hb : String.fromUTF8? bytes = some source)
      (h : (ofEntry r path (.file place bytes)).outcome.1 = .ok result) : Gives r source result

theorem ofEntry_eq_ok {r : Request} (h : (ofEntry r path entry).outcome.1 = .ok result) :
    ∃ place bytes source, entry = .file place bytes ∧ String.fromUTF8? bytes = some source ∧
      Yields r source result.script result.grammar := by
  rcases Document.loads_or_refused r.options.document path entry with ⟨d, hd⟩ | ⟨e, he⟩
  · rw [outcome_of_loads hd] at h
    obtain ⟨inner, hinner, rfl⟩ := map_eq_ok_iff.1 h
    exact ⟨_, _, d.source, hd.entry, fromUTF8?_eq_some_iff.2 rfl, inner, hinner, rfl, rfl⟩
  · cases h.symm.trans (outcome_of_refused he)

theorem Gives.yields {r : Request} (h : Gives r source result) :
    Yields r source result.script result.grammar := by
  cases h with
  | text h => exact ⟨result, h, rfl, rfl⟩
  | file hb h =>
    obtain ⟨_, _, source', he, hb', hy⟩ := ofEntry_eq_ok h
    cases he
    cases hb.symm.trans hb'
    exact hy

/-- The script of a run is that of the management element of its document. -/
theorem Gives.exists_management {r : Request} (h : Gives r source result) :
    ∃ e, HasManagement source result.grammar e ∧
      DocumentCompilation.IsCompiled result.grammar r.options .empty e result.script :=
  DocumentCompilation.document_iff_management.1 (yields_iff.1 h.yields)

end Run

end ManagementScript
