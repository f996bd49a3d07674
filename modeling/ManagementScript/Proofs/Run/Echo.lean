import ManagementScript.Proofs.Compilation.Echo
import ManagementScript.Proofs.Run.Truncation

/-!
Runs over documents that say the same up to the end of their roots. They succeed together, and with
the same script.
-/

namespace ManagementScript

namespace DocumentCompilation

theorem move_echo {step : Cursor → Cursor.Moved α} {s t s' : CompilationState Unit} (h : s.Echo t)
    (hstep : ∀ d, step s.cursor = (.ok a, d) → ∃ d', step t.cursor = (.ok a, d') ∧ d.Echo d')
    (hm : move step s = (.ok a, s')) : ∃ t', move step t = (.ok a, t') ∧ s'.Echo t' := by
  have hs : s'.script = s.script := by
    simp only [move] at hm
    split at hm
    · cases hm
      rfl
    · cases hm
  obtain ⟨d', hd', hecho⟩ := hstep _ (move_eq_ok hm)
  refine ⟨{ t with cursor := d' }, ?_, hecho, hs.trans h.script⟩
  rw [move, hd']

theorem ofCompilation_of_eq_ok {m : Compilation Unit α} {s s' : CompilationState Unit}
    (h : m s = (.ok a, s')) : ofCompilation m s = (.ok a, s') := by
  have happly : ofCompilation m s = ((m s).1.mapError .compilation, (m s).2) := rfl
  rw [happly, h]
  rfl

theorem management_echo {s t s' : CompilationState Unit} (h : s.Echo t) (ho : s.cursor.opened ≠ [])
    (hm : management grammar o s = (.ok u, s')) :
    ∃ t', management grammar o t = (.ok u, t') ∧ s'.Echo t' := by
  obtain ⟨t', hm', h'⟩ := (Compilation.Scans.management _ _).echoes h ho (ofCompilation_eq_ok hm)
  exact ⟨t', ofCompilation_of_eq_ok hm', h'⟩

theorem atManagement_echo {c c' : Cursor} (h : c.Echo c') :
    atManagement grammar c' = atManagement grammar c := by
  rw [atManagement, h.localName, h.namespaceUri, atManagement]

theorem readSection_echo {s t s' : CompilationState Unit} (h : s.Echo t)
    (ho : s.cursor.opened ≠ []) (hm : readSection grammar o found s = (.ok found', s')) :
    ∃ t', readSection grammar o found t = (.ok found', t') ∧ s'.Echo t' := by
  rw [readSection, getCursor_bind] at hm ⊢
  rw [atManagement_echo h.cursor]
  split at hm
  · next hat =>
    rw [if_pos hat]
    cases found with
    | true =>
      obtain ⟨_, _, ht, _⟩ := stateful_bind_eq_ok.1 hm
      cases ht
    | false =>
      obtain ⟨u, s₁, hm, hr⟩ := stateful_bind_eq_ok.1 hm
      cases hr
      obtain ⟨t', hm', h'⟩ := management_echo h ho hm
      exact ⟨t', stateful_bind_eq_ok.2 ⟨u, t', hm', rfl⟩, h'⟩
  · next hat =>
    rw [if_neg hat]
    obtain ⟨u, s₁, hm, hr⟩ := stateful_bind_eq_ok.1 hm
    cases hr
    obtain ⟨t', hm', h'⟩ := move_echo h (fun _ => h.cursor.skipElement ho) hm
    exact ⟨t', stateful_bind_eq_ok.2 ⟨u, t', hm', rfl⟩, h'⟩

theorem opened_ne_nil {c : Cursor} (hd : c.depth = n + 1) : c.opened ≠ [] :=
  List.ne_nil_of_length_eq_add_one hd

theorem ReadsSections.echo {s t s' : CompilationState Unit}
    (h : ReadsSections grammar o found s found' s') (hecho : s.Echo t) (hd : s.cursor.depth = 1) :
    ∃ t', ReadsSections grammar o found t found' t' ∧ s'.Echo t' := by
  -- A move to a tag inside the root leads to the same tag.
  have hmoved {s t s₁ : CompilationState Unit} {tag : Tag} (hecho : s.Echo t)
      (hd : s.cursor.depth = 1) (hm : move Cursor.next s = (.ok tag, s₁)) :
      ∃ t₁, move Cursor.next t = (.ok tag, t₁) ∧ s₁.Echo t₁ :=
    move_echo hecho (fun _ hnext => hecho.cursor.next (hecho.cursor.pending (opened_ne_nil hd)) hnext
      (ne_endOfDocument hd hnext)) hm
  induction h generalizing t with
  | finish hm =>
    obtain ⟨t', hm', h'⟩ := hmoved hecho hd hm
    exact ⟨t', .finish hm', h'⟩
  | child hm hsection _ ih =>
    obtain ⟨t₁, hm', h₁⟩ := hmoved hecho hd hm
    obtain ⟨t₂, hsection', h₂⟩ :=
      readSection_echo h₁ (opened_ne_nil (depth_of_start hd hm)) hsection
    obtain ⟨t', hrest, h'⟩ := ih h₂ (behind_section hd hm hsection).1
    exact ⟨t', .child hm' hsection' hrest, h'⟩

theorem readRoot_echo {s t s' : CompilationState Unit} (h : s.Echo t) (hd : s.cursor.depth = 1)
    (hm : readRoot grammar o s = (.ok u, s')) :
    ∃ t', readRoot grammar o t = (.ok u, t') ∧ s'.Echo t' := by
  rw [readRoot, getCursor_bind] at hm ⊢
  rw [h.cursor.localName]
  split at hm
  · next hroot =>
    rw [if_pos hroot]
    exact management_echo h (opened_ne_nil hd) hm
  next hroot =>
  rw [if_neg hroot]
  split at hm
  · next hsections =>
    rw [if_pos hsections]
    obtain ⟨found, s₁, hm, hfound⟩ := stateful_bind_eq_ok.1 hm
    obtain ⟨t', hm', h'⟩ := ((sectionsAmong_eq_ok_iff hd (Nat.le_refl _)).1 hm).echo h hd
    have hd' : t.cursor.depth = 1 := (congrArg List.length h.cursor.opened).trans hd
    have hm' := (sectionsAmong_eq_ok_iff hd' (Nat.le_refl _)).2 hm'
    cases found with
    | true =>
      cases hfound
      exact ⟨t', stateful_bind_eq_ok.2 ⟨true, t', hm', rfl⟩, h'⟩
    | false => cases hfound
  · cases hm

theorem requireGrammar_echo {s t s' : CompilationState Unit} (h : s.Echo t)
    (hm : requireGrammar s = (.ok grammar, s')) : requireGrammar t = (.ok grammar, t) := by
  rw [requireGrammar, getCursor_bind] at hm ⊢
  rw [h.cursor.namespaceUri]
  cases hg : s.cursor.namespaceUri.bind GrammarNamespace.ofUri? with
  | some grammar =>
    rw [hg] at hm
    cases hm
    rfl
  | none =>
    rw [hg] at hm
    cases hm

theorem ofString_alike (source source' : String) :
    (Cursor.ofString source).Alike (Cursor.ofString source') :=
  ⟨rfl, rfl, rfl, .nil, .nil⟩

/-- A document is compiled to the script of every document that says the same. -/
theorem document_echo {source source' : String} {s' : CompilationState Unit}
    (h : Xml.Echo 0 (Xml.events source) (Xml.events source'))
    (hm : document o (Compilation.start source ()) = (.ok grammar, s')) :
    ∃ t', document o (Compilation.start source' ()) = (.ok grammar, t') ∧ s'.script = t'.script := by
  have hstart : (Compilation.start source ()).Echo (Compilation.start source' ()) :=
    ⟨⟨ofString_alike source source', fun ho => absurd rfl ho⟩, rfl⟩
  obtain ⟨tag, s₁, hmove, hdocument⟩ := stateful_bind_eq_ok.1 hm
  cases tag with
  | finish | endOfDocument => cases hdocument
  | start =>
    obtain ⟨t₁, hmove', h₁⟩ := move_echo hstart
      (fun _ hnext => hstart.cursor.next h hnext (by simp)) hmove
    obtain ⟨grammar₁, s₂, hg, hgrammar⟩ := stateful_bind_eq_ok.1 hdocument
    obtain rfl := requireGrammar_state hg
    have hg' := requireGrammar_echo h₁ hg
    rw [getCursor_bind] at hgrammar
    obtain ⟨_, s₃, he, hemitted⟩ := stateful_bind_eq_ok.1 hgrammar
    obtain ⟨_, s₄, hroot, hr⟩ := stateful_bind_eq_ok.1 hemitted
    cases hr
    obtain ⟨t₃, he', h₃, hcursor⟩ := (Compilation.stays_emit _).echo h₁ (ofCompilation_eq_ok he)
    have hdepth : s₃.cursor.depth = 1 := by
      rw [hcursor, Cursor.depth, (Cursor.next_start_moves (move_eq_ok hmove)).1]
      rfl
    obtain ⟨t₄, hroot', h₄⟩ := readRoot_echo h₃ hdepth hroot
    rw [← h₁.cursor.localName] at he'
    refine ⟨t₄, stateful_bind_eq_ok.2 ⟨_, t₁, hmove', stateful_bind_eq_ok.2 ⟨_, t₁, hg', ?_⟩⟩,
      h₄.script⟩
    rw [getCursor_bind]
    exact stateful_bind_eq_ok.2 ⟨_, t₃, ofCompilation_of_eq_ok he',
      stateful_bind_eq_ok.2 ⟨_, t₄, hroot', rfl⟩⟩

end DocumentCompilation

namespace Run

/-- The run over the text gives the script, and the grammar that it is written in. -/
def Yields (r : Request) (source : String) (script : Script) (grammar : GrammarNamespace) : Prop :=
  ∃ result, (ofSource r source).outcome.1 = .ok result ∧ result.script = script ∧
    result.grammar = grammar

theorem yields_iff {r : Request} {source : String} : Yields r source script grammar ↔
    ∃ s', DocumentCompilation.document r.options (Compilation.start source ()) = (.ok grammar, s') ∧
      s'.script = script := by
  rw [Yields, ofSource_apply, compile_apply]
  generalize DocumentCompilation.document r.options (Compilation.start source ()) = moved
  obtain ⟨outcome, s'⟩ := moved
  cases outcome with
  | error e => exact ⟨fun ⟨_, h, _⟩ => (nomatch h), fun ⟨_, h, _⟩ => (nomatch h)⟩
  | ok found =>
    apply Iff.intro
    · intro h
      obtain ⟨_, h, rfl, rfl⟩ := h
      cases h
      exact ⟨s', rfl, rfl⟩
    · intro h
      obtain ⟨_, h, rfl⟩ := h
      cases h
      exact ⟨_, rfl, rfl, rfl⟩

/-- Documents that say the same up to the ends of their roots give the same script. -/
theorem Yields.of_echo {r : Request} {source source' : String}
    (he : Xml.Echo 0 (Xml.events source) (Xml.events source'))
    (h : Yields r source script grammar) : Yields r source' script grammar := by
  obtain ⟨s', hm, hs⟩ := yields_iff.1 h
  obtain ⟨t', hm', hscript⟩ := DocumentCompilation.document_echo he hm
  exact yields_iff.2 ⟨t', hm', hscript.symm.trans hs⟩

end Run

end ManagementScript
