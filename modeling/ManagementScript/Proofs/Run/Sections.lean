import ManagementScript.Proofs.Compilation.Management
import ManagementScript.Proofs.Run.Echo
import ManagementScript.Proofs.Tree.Omission

/-!
Which documents with sections are compiled. The sections are read one after the other; the script is that
of the one management element among them.
-/

namespace ManagementScript

/-- Whether the name is that of a management element of the grammar. -/
def GrammarNamespace.isManagement (grammar : GrammarNamespace) (name : Xml.ResolvedName) : Bool :=
  name.localName == ElementName.management.localName &&
    name.namespaceUri.toOption == some (some grammar.uri)

namespace DocumentCompilation

/-- What becomes of a script, and of whether a management element was found, over the section that
begins at a cursor. -/
inductive Compiles (grammar : GrammarNamespace) (o : RunOptions) :
    Bool → Script → Cursor → Bool → Script → Prop where
  | skipped (hn : atManagement grammar i = false) : Compiles grammar o found script i found script
  | management (hn : atManagement grammar i = true) (hi : i.Spans e d) (he : e.IsManagement grammar)
      (hnative : o.compilation.requireNativeInterface = false)
      (hroom : script.size + (e.commands o.base).length ≤ Limits.commands)
      (hscript : script'.toList = script.toList ++ e.commands o.base) :
      Compiles grammar o false script i true script'

/-- What becomes of them over all the sections that begin at the given cursors. -/
inductive CompilesAll (grammar : GrammarNamespace) (o : RunOptions) :
    Bool → Script → List Cursor → Bool → Script → Prop where
  | nil : CompilesAll grammar o found script [] found script
  | cons (h : Compiles grammar o found script i found₁ script₁)
      (hrest : CompilesAll grammar o found₁ script₁ is found' script') :
      CompilesAll grammar o found script (i :: is) found' script'

variable {grammar : GrammarNamespace} {o : RunOptions}

theorem readSection_eq_ok {s s' : CompilationState Unit} :
    readSection grammar o found s = (.ok found', s') ↔
      if atManagement grammar s.cursor then
        found = false ∧ found' = true ∧ management grammar o s = (.ok (), s')
      else found' = found ∧ move Cursor.skipElement s = (.ok (), s') := by
  rw [readSection, getCursor_bind]
  split
  · cases found with
    | true =>
      apply Iff.intro
      · intro h
        obtain ⟨_, _, h, _⟩ := stateful_bind_eq_ok.1 h
        cases h
      · intro h
        cases h.1
    | false =>
      apply Iff.intro
      · intro h
        obtain ⟨_, s₁, hm, hr⟩ := stateful_bind_eq_ok.1 h
        cases hr
        exact ⟨rfl, rfl, hm⟩
      · intro h
        obtain ⟨_, rfl, hm⟩ := h
        exact stateful_bind_eq_ok.2 ⟨(), s', hm, rfl⟩
  · apply Iff.intro
    · intro h
      obtain ⟨_, s₁, hm, hr⟩ := stateful_bind_eq_ok.1 h
      cases hr
      exact ⟨rfl, hm⟩
    · intro h
      obtain ⟨rfl, hm⟩ := h
      exact stateful_bind_eq_ok.2 ⟨(), s', hm, rfl⟩

theorem move_eq_ok_iff {step : Cursor → Cursor.Moved α} {s s' : CompilationState Unit} :
    move step s = (.ok a, s') ↔
      step s.cursor = (.ok a, s'.cursor) ∧ s' = { s with cursor := s'.cursor } := by
  apply Iff.intro
  · intro h
    refine ⟨move_eq_ok h, ?_⟩
    rw [move] at h
    split at h
    · cases h
      rfl
    · cases h
  · intro h
    obtain ⟨h, hs⟩ := h
    rw [move, h]
    exact congrArg _ hs.symm

theorem exists_move {step : Cursor → Cursor.Moved α} {s : CompilationState Unit}
    (h : step s.cursor = (.ok a, d)) : move step s = (.ok a, { s with cursor := d }) := by
  rw [move, h]

theorem script_of_move {step : Cursor → Cursor.Moved α} {s s' : CompilationState Unit}
    (h : move step s = (.ok a, s')) : s'.script = s.script := by
  rw [move] at h
  split at h
  · cases h
    rfl
  · cases h

/-- A section is compiled or skipped, and in both cases the cursor is behind it. -/
theorem readSection_iff {s : CompilationState Unit} (hopen : s.cursor.opened ≠ []) :
    (∃ s', readSection grammar o found s = (.ok found', s') ∧ s'.cursor = d ∧ s'.script = script') ↔
      s.cursor.skipElement = (.ok (), d) ∧
        Compiles grammar o found s.script s.cursor found' script' := by
  apply Iff.intro
  · intro h
    obtain ⟨s', h, rfl, rfl⟩ := h
    rw [readSection_eq_ok] at h
    split at h
    · next hn =>
      obtain ⟨rfl, rfl, hm⟩ := h
      obtain ⟨e, d, hi, he, hnative, hroom, hs⟩ :=
        Compilation.management_eq_ok_iff.1 (ofCompilation_eq_ok hm)
      refine ⟨?_, .management hn hi he hnative hroom hs.script.toList⟩
      rw [hs.cursor]
      exact hi.inside.skipElement hopen
    · next hn =>
      obtain ⟨rfl, hm⟩ := h
      rw [script_of_move hm]
      exact ⟨move_eq_ok hm, .skipped (Bool.eq_false_iff.2 hn)⟩
  · intro h
    obtain ⟨hskip, h⟩ := h
    simp only [readSection_eq_ok]
    cases h with
    | skipped hn =>
      refine ⟨{ s with cursor := d }, ?_, rfl, rfl⟩
      rw [if_neg (by rw [hn]; exact Bool.false_ne_true)]
      exact ⟨rfl, exists_move hskip⟩
    | @management _ e d' _ _ hn hi he hnative hroom hscript =>
      cases (hi.inside.skipElement hopen).symm.trans hskip
      obtain ⟨s', hs⟩ := s.exists_after (fun _ => hroom) d
        (Compilation.managementReports grammar o.base e)
      refine ⟨s', ?_, hs.cursor, Script.ext_toList (hs.script.toList.trans hscript.symm)⟩
      rw [if_pos hn]
      exact ⟨rfl, rfl, ofCompilation_of_eq_ok
        (Compilation.management_eq_ok_iff.2 ⟨e, d, hi, he, hnative, hroom, hs⟩)⟩

theorem ReadsSections.compilesAll {s s' : CompilationState Unit}
    (h : ReadsSections grammar o found s found' s') (hd : s.cursor.depth = 1) :
    ∃ is d, s.cursor.Heads is d ∧ CompilesAll grammar o found s.script is found' s'.script := by
  induction h with
  | finish hm =>
    rw [script_of_move hm]
    exact ⟨[], _, .finish (move_eq_ok hm), .nil⟩
  | child hm hsection _ ih =>
    have hopen := opened_ne_nil (depth_of_start hd hm)
    obtain ⟨hskip, hc⟩ := (readSection_iff hopen).1 ⟨_, hsection, rfl, rfl⟩
    obtain ⟨is, d, hh, hall⟩ := ih (behind_section hd hm hsection).1
    rw [script_of_move hm] at hc
    exact ⟨_ :: is, d, .child (move_eq_ok hm) hskip hh, .cons hc hall⟩

theorem CompilesAll.readsSections {s : CompilationState Unit}
    (h : CompilesAll grammar o found s.script is found' script') (hh : s.cursor.Heads is d)
    (hd : s.cursor.depth = 1) :
    ∃ s', ReadsSections grammar o found s found' s' ∧ s'.script = script' := by
  generalize hs : s.script = script at h
  induction h generalizing s with
  | nil =>
    cases hh with
    | finish hnext => exact ⟨_, .finish (exists_move hnext), hs⟩
  | cons hc _ ih =>
    cases hh with
    | child hnext hskip hh =>
      have hm := exists_move hnext
      have hopen := opened_ne_nil (depth_of_start hd hm)
      obtain ⟨s₂, hsection, rfl, hs₂⟩ := (readSection_iff hopen).2 ⟨hskip, hs ▸ hc⟩
      obtain ⟨s', hrest, hs'⟩ := ih hh (behind_section hd hm hsection).1 hs₂
      exact ⟨s', .child hm hsection hrest, hs'⟩

/-- The sections are read one after the other. -/
theorem sectionsAmong_iff {s : CompilationState Unit} (hd : s.cursor.depth = 1) :
    (∃ s', sectionsAmong grammar o found s.cursor.pending s = (.ok found', s') ∧
        s'.script = script') ↔
      ∃ is d, s.cursor.Heads is d ∧ CompilesAll grammar o found s.script is found' script' := by
  simp only [sectionsAmong_eq_ok_iff hd (Nat.le_refl _)]
  apply Iff.intro
  · intro h
    obtain ⟨s', h, rfl⟩ := h
    exact h.compilesAll hd
  · intro h
    obtain ⟨is, d, hh, hall⟩ := h
    exact hall.readsSections hh hd

theorem compilesAll_true_iff : CompilesAll grammar o true script is found' script' ↔
    found' = true ∧ script' = script ∧ is.filter (atManagement grammar) = [] := by
  induction is with
  | nil =>
    apply Iff.intro
    · intro h
      cases h
      exact ⟨rfl, rfl, rfl⟩
    · intro h
      obtain ⟨rfl, rfl, _⟩ := h
      exact .nil
  | cons i is ih =>
    apply Iff.intro
    · intro h
      cases h with
      | cons h hrest =>
      cases h with
      | skipped hn =>
        obtain ⟨rfl, rfl, hnone⟩ := ih.1 hrest
        exact ⟨rfl, rfl, by rw [List.filter_cons_of_neg (by simp [hn]), hnone]⟩
    · intro h
      obtain ⟨rfl, rfl, hnone⟩ := h
      obtain ⟨hn, hnone⟩ := List.forall_mem_cons.1 (List.filter_eq_nil_iff.1 hnone)
      exact .cons (.skipped (Bool.eq_false_iff.2 hn)) (ih.2 ⟨rfl, rfl, List.filter_eq_nil_iff.2 hnone⟩)

/-- The commands of the element can be added to the script, and give `script'`. -/
structure IsCompiled (grammar : GrammarNamespace) (o : RunOptions) (script : Script) (e : Element)
    (script' : Script) : Prop where
  management : e.IsManagement grammar
  native : o.compilation.requireNativeInterface = false
  room : script.size + (e.commands o.base).length ≤ Limits.commands
  script : script'.toList = script.toList ++ e.commands o.base

/-- The sections are compiled where exactly one of them is a management element. -/
theorem compilesAll_false_iff : CompilesAll grammar o false script is true script' ↔
    ∃ i e d, is.filter (atManagement grammar) = [i] ∧ i.Spans e d ∧
      IsCompiled grammar o script e script' := by
  induction is with
  | nil =>
    apply Iff.intro
    · intro h
      cases h
    · intro h
      obtain ⟨_, _, _, h, _⟩ := h
      cases h
  | cons i is ih =>
    apply Iff.intro
    · intro h
      cases h with
      | cons h hrest =>
      cases h with
      | skipped hn =>
        obtain ⟨i', e, d, hone, hrest⟩ := ih.1 hrest
        exact ⟨i', e, d, by rw [List.filter_cons_of_neg (by simp [hn]), hone], hrest⟩
      | @management _ e d _ _ hn hi he hnative hroom hscript =>
        obtain ⟨_, rfl, hnone⟩ := compilesAll_true_iff.1 hrest
        exact ⟨i, e, d, by rw [List.filter_cons_of_pos hn, hnone], hi, he, hnative, hroom, hscript⟩
    · intro h
      obtain ⟨i', e, d, hone, hi, hc⟩ := h
      cases hn : atManagement grammar i with
      | false =>
        rw [List.filter_cons_of_neg (by simp [hn])] at hone
        exact .cons (.skipped hn) (ih.2 ⟨i', e, d, hone, hi, hc⟩)
      | true =>
        rw [List.filter_cons_of_pos hn] at hone
        obtain ⟨rfl, hnone⟩ := List.cons.inj hone
        exact .cons (.management hn hi hc.management hc.native hc.room hc.script)
          (compilesAll_true_iff.2 ⟨rfl, rfl, hnone⟩)

theorem requireGrammar_eq_ok {s s' : CompilationState Unit} :
    requireGrammar s = (.ok grammar, s') ↔
      s.cursor.namespaceUri.bind GrammarNamespace.ofUri? = some grammar ∧ s' = s := by
  rw [requireGrammar, getCursor_bind]
  cases hg : s.cursor.namespaceUri.bind GrammarNamespace.ofUri? with
  | some found =>
    apply Iff.intro
    · intro h
      cases h
      exact ⟨rfl, rfl⟩
    · intro h
      obtain ⟨h, rfl⟩ := h
      cases h
      rfl
  | none =>
    apply Iff.intro
    · intro h
      cases h
    · intro h
      cases h.1

theorem readRoot_eq_ok {s s' : CompilationState Unit}
    (hroot : (ElementName.ofString s.cursor.localName).isDocumentRoot = true) :
    readRoot grammar o s = (.ok (), s') ↔
      sectionsAmong grammar o false s.cursor.pending s = (.ok true, s') := by
  have hother : (ElementName.ofString s.cursor.localName == .management) = false := by
    rw [beq_eq_false_iff_ne]
    intro he
    rw [he] at hroot
    cases hroot
  rw [readRoot, getCursor_bind, hother, if_neg Bool.false_ne_true, if_pos hroot]
  apply Iff.intro
  · intro h
    obtain ⟨found, s₁, hm, hfound⟩ := stateful_bind_eq_ok.1 h
    cases found with
    | true =>
      cases hfound
      exact hm
    | false => cases hfound
  · intro h
    exact stateful_bind_eq_ok.2 ⟨true, s', h, rfl⟩

/-- The state on the root at `i`, once it is reported. -/
def onRoot (s : CompilationState Unit) (grammar : GrammarNamespace) (i : Cursor) :
    CompilationState Unit :=
  { s with
    cursor := i
    events := s.events.push <| (LogEvent.debug "Document root located").withFacts
      [("root", i.localName), ("namespace", grammar.uri)] }

theorem document_eq_ok {s s' : CompilationState Unit} : document o s = (.ok grammar, s') ↔
    ∃ i, s.cursor.next = (.ok .start, i) ∧
      i.namespaceUri.bind GrammarNamespace.ofUri? = some grammar ∧
      readRoot grammar o (onRoot s grammar i) = (.ok (), s') := by
  apply Iff.intro
  · intro h
    obtain ⟨tag, s₁, hmove, hdocument⟩ := stateful_bind_eq_ok.1 h
    obtain ⟨hnext, hs₁⟩ := move_eq_ok_iff.1 hmove
    cases tag with
    | finish | endOfDocument => cases hdocument
    | start =>
      obtain ⟨grammar₁, s₂, hrequire, hgrammar⟩ := stateful_bind_eq_ok.1 hdocument
      obtain ⟨hg, rfl⟩ := requireGrammar_eq_ok.1 hrequire
      rw [getCursor_bind] at hgrammar
      obtain ⟨_, s₃, he, hemitted⟩ := stateful_bind_eq_ok.1 hgrammar
      obtain ⟨_, s₄, hr, hpure⟩ := stateful_bind_eq_ok.1 hemitted
      cases hpure
      cases he
      rw [hs₁] at hr
      exact ⟨_, hnext, hg, hr⟩
  · intro h
    obtain ⟨i, hnext, hg, hr⟩ := h
    refine stateful_bind_eq_ok.2 ⟨.start, _, exists_move hnext, ?_⟩
    refine stateful_bind_eq_ok.2 ⟨grammar, _, requireGrammar_eq_ok.2 ⟨hg, rfl⟩, ?_⟩
    rw [getCursor_bind]
    exact stateful_bind_eq_ok.2 ⟨(), _, rfl, stateful_bind_eq_ok.2 ⟨(), s', hr, rfl⟩⟩

/-- A document whose root has sections is compiled where exactly one of them is a management element. -/
theorem document_iff {source : String} {c : Cursor}
    (hc : (Cursor.ofString source).next = (.ok .start, c))
    (hroot : (ElementName.ofString c.localName).isDocumentRoot = true) :
    (∃ s', document o (Compilation.start source ()) = (.ok grammar, s') ∧ s'.script = script) ↔
      c.namespaceUri.bind GrammarNamespace.ofUri? = some grammar ∧
        ∃ e, c.HoldsOne grammar.isManagement e ∧ IsCompiled grammar o .empty e script := by
  let s := onRoot (Compilation.start source ()) grammar c
  have hd : s.cursor.depth = 1 := by
    have hopened : c.opened = [c.localName] := (Cursor.next_start_moves hc).1
    exact congrArg List.length hopened
  have hsections := @sectionsAmong_iff grammar o false true script s hd
  apply Iff.intro
  · intro h
    obtain ⟨s', h, hs'⟩ := h
    obtain ⟨i, hi, hg, hr⟩ := document_eq_ok.1 h
    cases hc.symm.trans hi
    obtain ⟨is, d, hh, hall⟩ := hsections.1 ⟨s', (readRoot_eq_ok hroot).1 hr, hs'⟩
    obtain ⟨i, e, d', hone, he, hcompiled⟩ := compilesAll_false_iff.1 hall
    exact ⟨hg, e, ⟨is, d, i, d', hh, hone, he⟩, hcompiled⟩
  · intro h
    obtain ⟨hg, e, ⟨is, d, i, d', hh, hone, he⟩, hcompiled⟩ := h
    obtain ⟨s', hr, hs'⟩ := hsections.2
      ⟨is, d, hh, compilesAll_false_iff.2 ⟨i, e, d', hone, he, hcompiled⟩⟩
    exact ⟨s', document_eq_ok.2 ⟨c, hc, hg, (readRoot_eq_ok hroot).2 hr⟩, hs'⟩

end DocumentCompilation

end ManagementScript
