import Mathlib
import ManagementScript.Proofs.Compilation.Consumption
import ManagementScript.Proofs.Tree.Root
import ManagementScript.Run.Basic

/-!
A run over a document succeeds only when it has read the end tag of the root. A text that is cut off
before the end of its root is therefore refused, wherever it is cut.
-/

namespace ManagementScript

namespace DocumentCompilation

theorem move_eq_ok {step : Cursor → Cursor.Moved α} {s s' : CompilationState Unit}
    (h : move step s = (.ok a, s')) : step s.cursor = (.ok a, s'.cursor) := by
  simp only [move] at h
  split at h
  · next hs =>
    cases h
    exact hs
  · cases h

theorem getCursor_bind {f : Cursor → DocumentCompilation α} {s : CompilationState Unit} :
    (getCursor >>= f) s = f s.cursor s := rfl

theorem ofCompilation_eq_ok {t : Compilation Unit α} {s s' : CompilationState Unit}
    (h : ofCompilation t s = (.ok a, s')) : t s = (.ok a, s') := by
  have happly : ofCompilation t s = ((t s).1.mapError .compilation, (t s).2) := rfl
  rw [happly] at h
  generalize t s = outcome at h ⊢
  obtain ⟨result, s₁⟩ := outcome
  cases result with
  | ok b =>
    cases h
    rfl
  | error e => cases h

theorem management_encloses {s s' : CompilationState Unit}
    (h : management grammar o s = (.ok u, s')) :
    ∃ nodes, s.cursor.Encloses nodes s'.cursor :=
  (Compilation.Scans.management _ _).encloses (ofCompilation_eq_ok h)

/-- A section is read up to its end tag, whether it is compiled or skipped. -/
theorem endsRoot_of_readSection {s s' : CompilationState Unit} (hd : s.cursor.depth = n + 2)
    (h : readSection grammar o found s = (.ok found', s')) :
    s'.cursor.depth = n + 1 ∧ s'.cursor.pending.length ≤ s.cursor.pending.length ∧
      (Xml.EndsRoot (n + 1) s'.cursor.pending → Xml.EndsRoot (n + 2) s.cursor.pending) := by
  rw [readSection, getCursor_bind] at h
  split at h
  · have hcompiled : ∃ u s₁, management grammar o s = (.ok u, s₁) ∧ s' = s₁ := by
      split at h
      · obtain ⟨_, _, ht, _⟩ := stateful_bind_eq_ok.1 h
        cases ht
      · obtain ⟨u, s₁, hm, hr⟩ := stateful_bind_eq_ok.1 h
        cases hr
        exact ⟨u, _, hm, rfl⟩
    obtain ⟨u, s₁, hm, rfl⟩ := hcompiled
    obtain ⟨nodes, hn⟩ := management_encloses hm
    refine ⟨?_, Nat.le_of_lt hn.pending_lt, hn.endsRoot_inside⟩
    rw [Cursor.depth, hn.moves.1, List.length_tail]
    exact congrArg (· - 1) hd
  · obtain ⟨_, s₁, hm, hr⟩ := stateful_bind_eq_ok.1 h
    cases hr
    have hskip := move_eq_ok hm
    rw [Cursor.skipElement, hd] at hskip
    obtain ⟨ht, hlen, hend⟩ := Cursor.endsRoot_of_skipAmong (by omega) hskip
    exact ⟨ht, hlen, hd ▸ hend⟩

theorem ne_endOfDocument {c d : Cursor} (hd : c.depth = 1) (h : c.next = (.ok tag, d)) :
    tag ≠ .endOfDocument := by
  rintro rfl
  rw [Cursor.depth, (Cursor.opened_eq_nil_of_next h).1] at hd
  cases hd

/-- From inside the root the sections are read one after the other, up to the end tag of the root. -/
inductive ReadsSections (grammar : GrammarNamespace) (o : RunOptions) :
    Bool → CompilationState Unit → Bool → CompilationState Unit → Prop where
  | finish (hm : move Cursor.next s = (.ok .finish, s')) : ReadsSections grammar o found s found s'
  | child (hm : move Cursor.next s = (.ok .start, s₁))
      (hsection : readSection grammar o found s₁ = (.ok found₁, s₂))
      (hrest : ReadsSections grammar o found₁ s₂ found' s') : ReadsSections grammar o found s found' s'

theorem depth_of_start {s s₁ : CompilationState Unit} (hd : s.cursor.depth = n)
    (hm : move Cursor.next s = (.ok .start, s₁)) : s₁.cursor.depth = n + 1 := by
  rw [Cursor.depth, (Cursor.next_start_moves (move_eq_ok hm)).1]
  exact congrArg (· + 1) hd

/-- Behind a section the cursor is inside the root again, with less before it. -/
theorem behind_section {s s₁ s₂ : CompilationState Unit} (hd : s.cursor.depth = 1)
    (hm : move Cursor.next s = (.ok .start, s₁))
    (hsection : readSection grammar o found s₁ = (.ok found', s₂)) :
    s₂.cursor.depth = 1 ∧ s₂.cursor.pending.length < s.cursor.pending.length := by
  obtain ⟨hd₂, hle, _⟩ := endsRoot_of_readSection (depth_of_start hd hm) hsection
  exact ⟨hd₂, Nat.lt_of_le_of_lt hle (Cursor.next_pending_lt (move_eq_ok hm) (by simp))⟩

/-- There are as many events as the loop over the sections can take. -/
theorem sectionsAmong_eq_ok_iff {s s' : CompilationState Unit} {ahead : List Xml.Event}
    (hd : s.cursor.depth = 1) (hlen : s.cursor.pending.length ≤ ahead.length) :
    sectionsAmong grammar o found ahead s = (.ok found', s') ↔
      ReadsSections grammar o found s found' s' := by
  induction ahead generalizing s found with
  | nil =>
    have hnone {tag : Tag} {s₁ : CompilationState Unit} (hm : move Cursor.next s = (.ok tag, s₁)) :
        False := by
      have hnext := move_eq_ok hm
      have hlt := Cursor.next_pending_lt hnext (ne_endOfDocument hd hnext)
      rw [List.length_nil] at hlen
      omega
    apply Iff.intro
    · intro h
      obtain ⟨_, _, h, _⟩ := stateful_bind_eq_ok.1 h
      obtain ⟨_, _, hm, _⟩ := stateful_bind_eq_ok.1 h
      exact (hnone hm).elim
    · intro h
      cases h with
      | finish hm | child hm => exact (hnone hm).elim
  | cons event ahead ih =>
    rw [List.length_cons] at hlen
    rw [sectionsAmong]
    apply Iff.intro
    · intro h
      obtain ⟨tag, s₁, hm, h⟩ := stateful_bind_eq_ok.1 h
      cases tag with
      | endOfDocument => exact absurd rfl (ne_endOfDocument hd (move_eq_ok hm))
      | finish =>
        cases h
        exact .finish hm
      | start =>
        obtain ⟨found₁, s₂, hsection, hrest⟩ := stateful_bind_eq_ok.1 h
        obtain ⟨hd₂, hlt⟩ := behind_section hd hm hsection
        exact .child hm hsection ((ih hd₂ (by omega)).1 hrest)
    · intro h
      cases h with
      | finish hm => exact stateful_bind_eq_ok.2 ⟨.finish, s', hm, rfl⟩
      | child hm hsection hrest =>
        obtain ⟨hd₂, hlt⟩ := behind_section hd hm hsection
        exact stateful_bind_eq_ok.2 ⟨.start, _, hm,
          stateful_bind_eq_ok.2 ⟨_, _, hsection, (ih hd₂ (by omega)).2 hrest⟩⟩

theorem ReadsSections.endsRoot {s s' : CompilationState Unit}
    (h : ReadsSections grammar o found s found' s') (hd : s.cursor.depth = 1) :
    Xml.EndsRoot 1 s.cursor.pending := by
  induction h with
  | finish hm => exact Cursor.Lands.endsRoot_of_finish (move_eq_ok hm ▸ Cursor.next_lands _)
  | child hm hsection _ ih =>
    obtain ⟨hd₂, _, hend⟩ := endsRoot_of_readSection (depth_of_start hd hm) hsection
    exact Cursor.Lands.endsRoot_of_start (move_eq_ok hm ▸ Cursor.next_lands _) (hend (ih hd₂))

theorem requireGrammar_state {s s' : CompilationState Unit}
    (h : requireGrammar s = (.ok grammar, s')) : s' = s := by
  rw [requireGrammar, getCursor_bind] at h
  cases hg : s.cursor.namespaceUri.bind GrammarNamespace.ofUri? with
  | some grammar =>
    rw [hg] at h
    cases h
    rfl
  | none =>
    rw [hg] at h
    cases h

theorem endsRoot_of_readRoot {s s' : CompilationState Unit} (hd : s.cursor.depth = 1)
    (h : readRoot grammar o s = (.ok u, s')) : Xml.EndsRoot 1 s.cursor.pending := by
  rw [readRoot, getCursor_bind] at h
  split at h
  · obtain ⟨nodes, hn⟩ := management_encloses h
    exact hn.endsRoot
  split at h
  · obtain ⟨found, s₁, hm, _⟩ := stateful_bind_eq_ok.1 h
    exact ((sectionsAmong_eq_ok_iff hd (Nat.le_refl _)).1 hm).endsRoot hd
  · cases h

/-- A document is compiled only if the end tag of its root is read. -/
theorem endsRoot_of_document {source : String} {s' : CompilationState Unit}
    (h : document o (Compilation.start source ()) = (.ok grammar, s')) :
    Xml.EndsRoot 0 (Xml.events source) := by
  obtain ⟨tag, s₁, hm, hdocument⟩ := stateful_bind_eq_ok.1 h
  have hnext := move_eq_ok hm
  cases tag with
  | finish | endOfDocument => cases hdocument
  | start =>
    obtain ⟨grammar₁, s₂, hg, hgrammar⟩ := stateful_bind_eq_ok.1 hdocument
    obtain rfl := requireGrammar_state hg
    rw [getCursor_bind] at hgrammar
    obtain ⟨_, s₃, he, hemitted⟩ := stateful_bind_eq_ok.1 hgrammar
    obtain ⟨_, s₄, hroot, _⟩ := stateful_bind_eq_ok.1 hemitted
    have hcursor := (Compilation.emit_eq_ok.1 (ofCompilation_eq_ok he)).cursor
    have hdepth : s₃.cursor.depth = 1 := by
      rw [hcursor, Cursor.depth, (Cursor.next_start_moves hnext).1]
      rfl
    have hend := endsRoot_of_readRoot hdepth hroot
    rw [hcursor] at hend
    exact Cursor.Lands.endsRoot_of_start (hnext ▸ Cursor.next_lands _) hend

end DocumentCompilation

namespace Run

theorem compile_apply (o : RunOptions) (source : String) (entered : Array LogEvent) :
    (compile o source entered).1 =
      (DocumentCompilation.document o (Compilation.start source ())).1.map
        (((DocumentCompilation.document o (Compilation.start source ())).2.script, ·)) := by
  unfold compile
  cases DocumentCompilation.document o (Compilation.start source ()) with
  | mk outcome s' =>
    cases outcome with
    | error e => rfl
    | ok grammar => cases hlog : o.compilation.logCommands <;> rfl

theorem ofSource_apply (r : Request) (source : String) :
    (ofSource r source).outcome.1 = (compile r.options source #[]).1.map fun x =>
      ⟨x.1, x.2, r.options.base, none, source.utf8ByteSize, r.timing⟩ := by
  unfold Logged.outcome ofSource complete
  simp only [bind, ExceptT.bind, ExceptT.mk, StateT.bind, ExceptT.run]
  cases compile r.options source #[] with
  | mk outcome entered => cases outcome <;> rfl

theorem document_of_ofSource {r : Request} {source : String} {result : RunResult}
    (h : (ofSource r source).outcome.1 = .ok result) :
    ∃ grammar s', DocumentCompilation.document r.options (Compilation.start source ()) =
      (.ok grammar, s') := by
  rw [ofSource_apply, compile_apply] at h
  generalize DocumentCompilation.document r.options (Compilation.start source ()) = moved at h ⊢
  obtain ⟨outcome, s'⟩ := moved
  cases outcome with
  | ok grammar => exact ⟨grammar, s', rfl⟩
  | error e => cases h

/-- A document that a run accepts has a root, and the run refuses it when it is cut off anywhere
before the end of that root. -/
theorem truncated_refused {r : Request} {source : String} {result : RunResult}
    (h : (ofSource r source).outcome.1 = .ok result) :
    ∃ e, Xml.rootEnd? source = some e ∧
      ∀ front back, source.toList = front ++ back → Text.byteCount front < e →
        ∃ err, (ofSource r (String.ofList front)).outcome.1 = .error err := by
  obtain ⟨_, _, hdocument⟩ := document_of_ofSource h
  obtain ⟨e, he⟩ := Xml.rootEnd?_of_events (DocumentCompilation.endsRoot_of_document hdocument)
  refine ⟨e, he, fun front back hs hlt => ?_⟩
  cases hcut : (ofSource r (String.ofList front)).outcome.1 with
  | error err => exact ⟨err, rfl⟩
  | ok result' =>
    -- An accepted beginning has the end of its root in it, and that is where the whole root ends.
    obtain ⟨_, _, hdocument'⟩ := document_of_ofSource hcut
    have hle := Xml.rootEnd?_le hs (DocumentCompilation.endsRoot_of_document hdocument') he
    exact absurd hlt (Nat.not_lt.2 hle)

namespace EmptySample

def source : String := "<management xmlns='urn:jboss:domain:4.2'/>\n"

def request : Request where
  options := ⟨⟨false, false, none⟩, .plain⟩
  logging := ⟨false, false, .info, false, false⟩
  timing := ⟨⟨0, 0⟩, 0⟩

theorem accepted : ∃ result, (ofSource request source).outcome.1 = .ok result := by
  rw [← isSome_toOption_iff]
  cbv

theorem rootEnd?_eq : Xml.rootEnd? source = some 42 := by cbv

end EmptySample

/-- Without the last of its 42 bytes the root is refused. -/
theorem truncated_refused_empty : Xml.rootEnd? EmptySample.source = some 42 ∧
    ∃ err, (ofSource EmptySample.request
      (String.ofList (EmptySample.source.toList.take 41))).outcome.1 = .error err := by
  obtain ⟨_, hresult⟩ := EmptySample.accepted
  obtain ⟨e, he, hcut⟩ := truncated_refused hresult
  have hlt : Text.byteCount (EmptySample.source.toList.take 41) < 42 := by decide
  rw [EmptySample.rootEnd?_eq] at he
  obtain rfl := Option.some.inj he
  exact ⟨EmptySample.rootEnd?_eq, hcut _ _ (List.take_append_drop 41 _).symm hlt⟩

end Run

end ManagementScript
