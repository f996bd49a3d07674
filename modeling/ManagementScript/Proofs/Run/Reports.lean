import ManagementScript.Proofs.Compilation.Quiet
import ManagementScript.Proofs.Run.Results

/-!
Which failures of a run are reported. Loading a document tells of its own failure in the log; the later
stages only return theirs.
-/

namespace ManagementScript

namespace Logged

variable {ε α β : Type}

/-- What is emitted on the way to a result is quiet; on the way to an error it ends with one error, which
has the code of the error. -/
structure Announces (code : ε → Code) (work : Logged ε α) : Prop where
  result : ∀ entered a entered', work entered = (.ok a, entered') →
    ∃ new, entered'.toList = entered.toList ++ new ∧ ∀ event ∈ new, event.IsQuiet
  failure : ∀ entered e entered', work entered = (.error e, entered') →
    ∃ new last, entered'.toList = entered.toList ++ (new ++ [last]) ∧
      (∀ event ∈ new, event.IsQuiet) ∧ last.isError = true ∧ last.code = code e

variable {code : ε → Code}

theorem announces_pure (a : α) : Announces code (pure a : Logged ε α) := by
  apply Announces.mk
  · intro entered b entered' h
    cases h
    exact ⟨[], (List.append_nil _).symm, List.forall_mem_nil _⟩
  · intro entered e entered' h
    cases h

theorem announces_emit {event : LogEvent} (h : event.IsQuiet) :
    Announces code (emit event : Logged ε Unit) := by
  apply Announces.mk
  · intro entered a entered' hemit
    cases hemit
    exact ⟨[event], Array.toList_push, List.forall_mem_singleton.2 h⟩
  · intro entered e entered' hemit
    cases hemit

theorem announces_refuse {e : ε} {event : LogEvent} (h : event.isError = true)
    (hc : event.code = code e) : Announces code (refuse e event : Logged ε α) := by
  apply Announces.mk
  · intro entered a entered' hrefuse
    cases hrefuse
  · intro entered e' entered' hrefuse
    cases hrefuse
    exact ⟨[], event, Array.toList_push, List.forall_mem_nil _, h, hc⟩

theorem Announces.bind {m : Logged ε α} {f : α → Logged ε β} (h : Announces code m)
    (hf : ∀ a, Announces code (f a)) : Announces code (m >>= f) := by
  apply Announces.mk
  · intro entered b entered' hbind
    obtain ⟨a, entered₁, hm, hrest⟩ := stateful_bind_eq_ok.1 hbind
    obtain ⟨new, hnew, hquiet⟩ := h.result _ _ _ hm
    obtain ⟨new', hnew', hquiet'⟩ := (hf a).result _ _ _ hrest
    refine ⟨new ++ new', ?_, List.forall_mem_append.2 ⟨hquiet, hquiet'⟩⟩
    rw [hnew', hnew, List.append_assoc]
  · intro entered e entered' hbind
    cases stateful_bind_eq_error.1 hbind with
    | inl hm => exact h.failure _ _ _ hm
    | inr hrest =>
      obtain ⟨a, entered₁, hm, hrest⟩ := hrest
      obtain ⟨new, hnew, hquiet⟩ := h.result _ _ _ hm
      obtain ⟨new', last, hnew', hquiet', hlast⟩ := (hf a).failure _ _ _ hrest
      refine ⟨new ++ new', last, ?_, List.forall_mem_append.2 ⟨hquiet, hquiet'⟩, hlast⟩
      simp only [hnew', hnew, List.append_assoc]

end Logged

namespace Document

open Logged (Announces announces_pure announces_emit announces_refuse)

theorem announces_refuse (e : LoadError) (message : String) (facts : List (String × String)) :
    Announces LoadError.code (refuse e message facts : Logged LoadError α) := by
  obtain ⟨hlevel, hcode⟩ := (LogEvent.error e.code message).withFacts_keeps facts
  exact Logged.announces_refuse (beq_iff_eq.2 hlevel) hcode

theorem announces_fileOf (path : String) (entry : Entry) :
    Announces LoadError.code (fileOf path entry) := by
  cases entry with
  | missing | directory => exact announces_refuse _ _ _
  | file | unreadable => exact announces_pure _

theorem announces_requireAdmissible (p : DocumentPreferences) (path : String) (m : Metadata) :
    Announces LoadError.code (requireAdmissible p path m) := by
  rw [requireAdmissible]
  split
  · exact announces_refuse _ _ _
  split
  · exact announces_refuse _ _ _
  split
  · exact announces_refuse _ _ _
  · exact announces_pure _

theorem announces_sourceOf (path : String) (entry : Entry) :
    Announces LoadError.code (sourceOf path entry) := by
  cases entry with
  | missing | directory => exact announces_refuse _ _ _
  | unreadable place size e => cases e <;> exact announces_refuse _ _ _
  | file place bytes =>
    rw [sourceOf]
    split
    · exact announces_pure _
    · exact announces_refuse _ _ _

theorem isQuiet_loadedEvent (p : DocumentPreferences) (path : String) (d : Document) (elapsed : Nat) :
    (loadedEvent p path d elapsed).IsQuiet := by
  simp only [loadedEvent]
  split
  · exact (LogEvent.isQuiet_success _ _).withFacts _
  · exact (LogEvent.isQuiet_success _ _).withFacts _

/-- Loading a document announces why it fails. -/
theorem announces_load (p : DocumentPreferences) (path : String) (entry : Entry) (elapsed : Nat) :
    Announces LoadError.code (load p path entry elapsed) := by
  have hloaded (d : Document) : Announces LoadError.code (do
      Logged.emit (loadedEvent p path d elapsed)
      return d : Logged LoadError Document) :=
    (announces_emit (isQuiet_loadedEvent p path d elapsed)).bind fun _ => announces_pure d
  have hread (file : String × Nat) : Announces LoadError.code (do
      let m : Metadata := ⟨file.1, file.2, 0⟩
      describe m
      requireAdmissible p path m
      let source ← sourceOf path entry
      let lines := countLines source
      if Limits.documentLines < lines then
        refuse (.tooManyLines lines Limits.documentLines) "Document exceeds maximum line count"
          [("file", path), ("lines", toString lines), ("max_lines", toString Limits.documentLines)]
      let d : Document := ⟨source, { m with lineCount := lines }⟩
      Logged.emit (loadedEvent p path d elapsed)
      return d : Logged LoadError Document) := by
    apply (announces_emit (LogEvent.IsQuiet.withFacts ⟨rfl, rfl⟩ _)).bind
    intro _
    apply (announces_requireAdmissible p path _).bind
    intro _
    apply (announces_sourceOf path entry).bind
    intro source
    dsimp only
    split
    · exact (announces_refuse _ _ _).bind fun _ => hloaded _
    · exact hloaded _
  refine Announces.bind (announces_emit ⟨rfl, rfl⟩) fun _ => ?_
  split
  · exact (announces_refuse _ _ _).bind fun _ => (announces_fileOf path entry).bind hread
  · exact (announces_fileOf path entry).bind hread

end Document

namespace DocumentCompilation

open Compilation (Quiet quiet_of_same quiet_pure quiet_throw quiet_emit quiet_management)

/-- The compilation tells of its progress only, and its failures are not about loading. -/
structure Silent (m : DocumentCompilation α) : Prop where
  quiet : Quiet m
  unloaded : ∀ s e s', m s = (.error e, s') → ∀ l, e ≠ .loading l

theorem silent_pure (a : α) : Silent (pure a) :=
  ⟨quiet_pure a, fun _ _ _ h => nomatch h⟩

theorem silent_throw {e : RunError} (h : ∀ l, e ≠ .loading l) :
    Silent (throw e : DocumentCompilation α) := by
  refine ⟨quiet_throw e, ?_⟩
  intro s e' s' ht
  cases ht
  exact h

theorem Silent.bind {m : DocumentCompilation α} {f : α → DocumentCompilation β} (h : Silent m)
    (hf : ∀ a, Silent (f a)) : Silent (m >>= f) := by
  refine ⟨h.quiet.bind fun a => (hf a).quiet, ?_⟩
  intro s e s' hbind
  cases stateful_bind_eq_error.1 hbind with
  | inl hm => exact h.unloaded _ _ _ hm
  | inr hrest =>
    obtain ⟨a, s₁, _, hrest⟩ := hrest
    exact (hf a).unloaded _ _ _ hrest

theorem silent_getCursor : Silent getCursor := ⟨quiet_of_same fun _ => rfl, fun _ _ _ h => nomatch h⟩

theorem silent_move (step : Cursor → Cursor.Moved α) : Silent (move step) := by
  apply Silent.mk
  · apply quiet_of_same
    intro s
    rw [move]
    split <;> rfl
  · intro s e s' h
    rw [move] at h
    split at h
    · cases h
    · cases h
      intro l hl
      cases hl

theorem silent_ofCompilation {m : Compilation Unit α} (h : Quiet m) : Silent (ofCompilation m) := by
  have happly (s : CompilationState Unit) :
      ofCompilation m s = ((m s).1.mapError .compilation, (m s).2) := rfl
  apply Silent.mk
  · intro s
    rw [happly]
    exact h s
  · intro s e s' he
    rw [happly] at he
    cases hm : (m s).1 with
    | ok a =>
      rw [hm] at he
      cases he
    | error e' =>
      rw [hm] at he
      cases he
      nofun

variable {grammar : GrammarNamespace} {o : RunOptions}

theorem silent_management : Silent (management grammar o) :=
  silent_ofCompilation (quiet_management _ _)

theorem silent_readSection (found : Bool) : Silent (readSection grammar o found) := by
  have hcompiled : Silent (do management grammar o; return true) :=
    silent_management.bind fun _ => silent_pure _
  apply silent_getCursor.bind
  intro cursor
  split
  · split
    · refine Silent.bind (silent_throw ?_) fun _ => hcompiled
      nofun
    · exact hcompiled
  · exact (silent_move _).bind fun _ => silent_pure _

theorem silent_sectionsAmong (found : Bool) (pending : List Xml.Event) :
    Silent (sectionsAmong grammar o found pending) := by
  induction pending generalizing found with
  | nil => exact ((silent_move _).bind fun _ => silent_pure _).bind fun _ => silent_pure _
  | cons event pending ih =>
    apply (silent_move _).bind
    intro tag
    cases tag with
    | start => exact (silent_readSection found).bind ih
    | finish | endOfDocument => exact silent_pure _

theorem silent_requireGrammar : Silent requireGrammar := by
  apply silent_getCursor.bind
  intro cursor
  dsimp only
  split
  · exact silent_pure _
  · exact silent_throw nofun

theorem silent_readRoot : Silent (readRoot grammar o) := by
  apply silent_getCursor.bind
  intro cursor
  dsimp only
  split
  · exact silent_management
  split
  · apply (silent_sectionsAmong _ _).bind
    intro found
    split
    · exact silent_throw nofun
    · exact silent_pure _
  · exact silent_throw nofun

/-- A document is compiled, or refused, without an error in the log. -/
theorem silent_document : Silent (document o) := by
  apply (silent_move _).bind
  intro tag
  cases tag with
  | finish | endOfDocument => exact silent_throw nofun
  | start =>
    apply silent_requireGrammar.bind
    intro grammar
    apply silent_getCursor.bind
    intro cursor
    refine Silent.bind (silent_ofCompilation (quiet_emit ⟨rfl, rfl⟩)) fun _ => ?_
    exact silent_readRoot.bind fun _ => silent_pure _

end DocumentCompilation

namespace Run

theorem compile_eq_error {o : RunOptions} {source : String} {entered entered' : Array LogEvent}
    (h : compile o source entered = (.error e, entered')) :
    ∃ s', DocumentCompilation.document o (Compilation.start source ()) = (.error e, s') ∧
      entered' = entered ++ s'.events := by
  unfold compile at h
  cases hd : DocumentCompilation.document o (Compilation.start source ()) with
  | mk result s' =>
    rw [hd] at h
    cases result with
    | ok grammar => cases hlog : o.compilation.logCommands <;> simp only [hlog] at h <;> cases h
    | error e' =>
      cases h
      exact ⟨s', rfl, rfl⟩

/-- What is behind the loading of a document fails without an error in the log. -/
theorem complete_eq_error {r : Request} {source : String} {entered entered' : Array LogEvent}
    (h : complete r name source metadata entered = (.error e, entered')) :
    (∀ l, e ≠ .loading l) ∧
      ∃ new, entered'.toList = entered.toList ++ new ∧ ∀ event ∈ new, event.IsQuiet := by
  cases stateful_bind_eq_error.1 h with
  | inl h =>
    obtain ⟨s', hdocument, rfl⟩ := compile_eq_error h
    have hsilent := DocumentCompilation.silent_document (o := r.options)
    obtain ⟨new, hnew, hquiet⟩ := hsilent.quiet (Compilation.start source ())
    rw [hdocument] at hnew
    have hevents : s'.events.toList = new := hnew
    refine ⟨hsilent.unloaded _ _ _ hdocument, new, ?_, hquiet⟩
    rw [Array.toList_append, hevents]
  | inr h =>
    obtain ⟨_, _, _, h⟩ := h
    cases h

theorem adapt_apply (f : ε → ε') (work : Logged ε α) (entered : Array LogEvent) :
    (ExceptT.adapt f work : Logged ε' α) entered =
      ((work entered).1.mapError f, (work entered).2) := rfl

theorem adapt_eq_ok {f : ε → ε'} {work : Logged ε α} {entered entered' : Array LogEvent}
    (h : (ExceptT.adapt f work : Logged ε' α) entered = (.ok a, entered')) :
    work entered = (.ok a, entered') := by
  rw [adapt_apply] at h
  generalize work entered = moved at h ⊢
  obtain ⟨result, events⟩ := moved
  cases result with
  | ok b =>
    cases h
    rfl
  | error e => cases h

theorem adapt_eq_error {f : ε → ε'} {work : Logged ε α} {entered entered' : Array LogEvent}
    (h : (ExceptT.adapt f work : Logged ε' α) entered = (.error e', entered')) :
    ∃ e, e' = f e ∧ work entered = (.error e, entered') := by
  rw [adapt_apply] at h
  generalize work entered = moved at h ⊢
  obtain ⟨result, events⟩ := moved
  cases result with
  | ok b => cases h
  | error e =>
    cases h
    exact ⟨e, rfl, rfl⟩

/-- A run fails in the loading, with an error at the end of the log, or later, without an error. -/
theorem ofEntry_eq_error {r : Request} (h : (ofEntry r path entry).outcome = (.error e, events)) :
    (∃ l, e = .loading l ∧ ∃ new last, events = new ++ [last] ∧ (∀ event ∈ new, event.IsQuiet) ∧
      last.isError = true ∧ last.code = e.code) ∨
    (∀ l, e ≠ .loading l) ∧ ∀ event ∈ events, event.IsQuiet := by
  have hload := Document.announces_load r.options.document path entry r.timing.elapsed
  have hrun : ofEntry r path entry #[] = (.error e, events.toArray) := by
    rw [Logged.outcome, ExceptT.run] at h
    generalize ofEntry r path entry #[] = moved at h
    obtain ⟨result, entered⟩ := moved
    cases h
    rfl
  let first := (LogEvent.info "Starting management document pipeline").withFact "file" path
  have hfirst : first.IsQuiet := ⟨rfl, rfl⟩
  have hrest : (do
      let d ← ExceptT.adapt .loading (Document.load r.options.document path entry r.timing.elapsed)
      complete r path d.source (some d.metadata) : Logged RunError RunResult) #[first] =
        (.error e, events.toArray) := hrun
  cases stateful_bind_eq_error.1 hrest with
  | inl hfailed =>
    obtain ⟨l, rfl, hl⟩ := adapt_eq_error hfailed
    obtain ⟨new, last, hnew, hquiet, hlast, hcode⟩ := hload.failure _ _ _ hl
    exact .inl ⟨l, rfl, first :: new, last, hnew, List.forall_mem_cons.2 ⟨hfirst, hquiet⟩, hlast, hcode⟩
  | inr hlater =>
    obtain ⟨d, entered, hloaded, hcomplete⟩ := hlater
    obtain ⟨new, hnew, hquiet⟩ := hload.result _ _ _ (adapt_eq_ok hloaded)
    obtain ⟨hunloaded, new', hnew', hquiet'⟩ := complete_eq_error hcomplete
    have hevents : events = first :: new ++ new' := by
      rw [hnew] at hnew'
      exact hnew'
    refine .inr ⟨hunloaded, ?_⟩
    rw [hevents]
    exact List.forall_mem_append.2 ⟨List.forall_mem_cons.2 ⟨hfirst, hquiet⟩, hquiet'⟩

/-- A failed run over the first document is reported, with the error that it returns, exactly where the
document could not be loaded. -/
theorem failed_loading_reported {r : Request} {path : String} {entry : Entry}
    {journal journal' : Journal} {e : RunError} (hj : journal.collector = .empty)
    (h : recorded r path entry journal = (.error e, journal')) :
    journal'.collector.Reports path e.code ↔ ∃ l, e = .loading l := by
  have hrecorded : recorded r path entry journal = ((ofEntry r path entry).outcome.1,
      journal.within ⟨path, 0⟩ (·.logAll r.logging (ofEntry r path entry).outcome.2)) := rfl
  rw [hrecorded] at h
  cases hrun : (ofEntry r path entry).outcome with
  | mk result events =>
    rw [hrun] at h
    cases h
    obtain ⟨l, he, new, last, rfl, hquiet, hlast, hcode⟩ | ⟨hunloaded, hquiet⟩ := ofEntry_eq_error hrun
    · refine iff_of_true ?_ ⟨l, he⟩
      rw [← hcode]
      exact Journal.reports_within hj hquiet hlast _
    · refine iff_of_false ?_ fun ⟨l, he⟩ => hunloaded l he
      rw [Journal.collector_within_quiet hquiet, hj]
      exact Collector.not_reports_empty path _

/-! ### A path without a file, and a document of another kind -/

theorem failed_loading_reported_missing : ∃ journal,
    recorded EmptySample.request "d.xml" .missing .empty =
      (.error (.loading (.fileNotFound "d.xml")), journal) ∧
    journal.collector.Reports "d.xml" .fileNotFound := by
  have hfails : (recorded EmptySample.request "d.xml" .missing .empty).1 =
      .error (.loading (.fileNotFound "d.xml")) := rfl
  refine ⟨_, Prod.ext hfails rfl, ?_⟩
  exact (failed_loading_reported rfl (Prod.ext hfails rfl)).2 ⟨_, rfl⟩

/-- A step of a computation that goes on. -/
theorem exists_stateful_bind {m : ExceptT ε (StateM σ) α} {f : α → ExceptT ε (StateM σ) β} {s : σ}
    (hm : m s = (.ok a, s₁)) (h : ∃ s', f a s₁ = (.ok b, s')) : ∃ s', (m >>= f) s = (.ok b, s') := by
  obtain ⟨s', h⟩ := h
  exact ⟨s', stateful_bind_eq_ok.2 ⟨a, s₁, hm, h⟩⟩

/-- A small file can be loaded under any name if it has a text of few lines. -/
theorem exists_load (place : String) {p : DocumentPreferences} (hp : path.isEmpty = false)
    (hx : p.requireXmlExtension = false) (hb : String.fromUTF8? bytes = some source)
    (hne : bytes.size ≠ 0) (hsize : bytes.size ≤ Limits.documentSize)
    (hlines : countLines source ≤ Limits.documentLines) (elapsed : Nat) (entered : Array LogEvent) :
    ∃ entered', Document.load p path (.file place bytes) elapsed entered =
      (.ok ⟨source, ⟨place, bytes.size, countLines source⟩⟩, entered') := by
  have hsource (entered : Array LogEvent) :
      Document.sourceOf path (.file place bytes) entered = (.ok source, entered) := by
    simp only [Document.sourceOf, hb]
    rfl
  have hadmissible (entered : Array LogEvent) :
      Document.requireAdmissible p path ⟨place, bytes.size, 0⟩ entered = (.ok (), entered) := by
    simp only [Document.requireAdmissible, Nat.not_lt.2 hsize, hne, hx, Bool.false_and,
      Bool.false_eq_true, ↓reduceIte]
    rfl
  refine exists_stateful_bind (a := ()) rfl ?_
  rw [hp, if_neg Bool.false_ne_true]
  refine exists_stateful_bind (a := (place, bytes.size)) rfl ?_
  refine exists_stateful_bind (a := ()) rfl ?_
  refine exists_stateful_bind (hadmissible _) ?_
  refine exists_stateful_bind (hsource _) ?_
  rw [if_neg (Nat.not_lt.2 hlines)]
  exact ⟨_, rfl⟩

/-- A run over a document that is loaded fails where the document does. -/
theorem ofEntry_eq_of_document {r : Request} (hload : ∀ entered, ∃ entered',
      Document.load r.options.document path entry r.timing.elapsed entered = (.ok d, entered'))
    (hd : (DocumentCompilation.document r.options (Compilation.start d.source ())).1 = .error e) :
    (ofEntry r path entry).outcome.1 = .error e := by
  obtain ⟨loaded, hload⟩ := hload
    #[(LogEvent.info "Starting management document pipeline").withFact "file" path]
  have hcompile : compile r.options d.source loaded =
      (.error e, (compile r.options d.source loaded).2) := by
    refine Prod.ext ?_ rfl
    rw [compile_apply, hd]
    rfl
  have hadapt := adapt_apply RunError.loading (Document.load r.options.document path entry
    r.timing.elapsed) #[(LogEvent.info "Starting management document pipeline").withFact "file" path]
  rw [hload] at hadapt
  have hfails : ofEntry r path entry #[] = (.error e, (compile r.options d.source loaded).2) :=
    stateful_bind_eq_error.2 (.inr ⟨(), _, rfl,
      stateful_bind_eq_error.2 (.inr ⟨d, loaded, hadapt, stateful_bind_eq_error.2 (.inl hcompile)⟩)⟩)
  rw [Logged.outcome, ExceptT.run, hfails]

theorem failed_document_unreported : ¬∀ (r : Request) path entry (journal journal' : Journal) e,
    journal.collector = .empty → recorded r path entry journal = (.error e, journal') →
      journal'.collector.Reports path e.code := by
  intro hreported
  have hlines : countLines "<x/>" = 1 := by cbv
  have hdecoded : String.fromUTF8? "<x/>".toUTF8 = some "<x/>" := by decide +kernel
  have hd : (DocumentCompilation.document EmptySample.request.options
      (Compilation.start "<x/>" ())).1 = .error (.unsupportedNamespace none) := by decide +kernel
  have hpath : "d.xml".isEmpty = false := by decide +kernel
  have hload := exists_load "/d.xml" (p := EmptySample.request.options.document) hpath rfl hdecoded
    (by decide +kernel) (by decide +kernel) (by rw [hlines]; decide +kernel)
    EmptySample.request.timing.elapsed
  have hrun := ofEntry_eq_of_document hload hd
  generalize hentry : Entry.file "/d.xml" "<x/>".toUTF8 = entry at hrun
  cases houtcome : (ofEntry EmptySample.request "d.xml" entry).outcome with
  | mk result events =>
    rw [houtcome] at hrun
    cases hrun
    have hrecorded : recorded EmptySample.request "d.xml" entry .empty =
        ((ofEntry EmptySample.request "d.xml" entry).outcome.1, Journal.empty.within ⟨"d.xml", 0⟩
          (·.logAll EmptySample.request.logging (ofEntry EmptySample.request "d.xml" entry).outcome.2)) := rfl
    rw [houtcome] at hrecorded
    have hreports := hreported _ _ _ _ _ _ rfl hrecorded
    obtain ⟨l, he, _⟩ | ⟨_, hquiet⟩ := ofEntry_eq_error houtcome
    · cases he
    · rw [Journal.collector_within_quiet hquiet] at hreports
      exact Collector.not_reports_empty _ _ hreports

end Run

end ManagementScript
