import ManagementScript.Diagnostics.Journal

/-!
What is collected of the events of one document, and what the report and the summary say then. Events that
are neither errors nor warnings are not collected.
-/

namespace ManagementScript

namespace Path

theorem orderSteps_self (steps : List Step) : orderSteps steps steps = .eq := by
  induction steps with
  | nil => rfl
  | cons step steps ih =>
    have hstep : step.order step = .eq := by
      cases step with
      | name text => exact Std.ReflOrd.compare_self
      | root | here | parent => rfl
    rw [orderSteps, hstep, ih]
    rfl

theorem order_self (path : String) : order path path = .eq := orderSteps_self _

end Path

namespace LogEvent

/-- The event is neither an error nor a warning. -/
def IsQuiet (event : LogEvent) : Prop := event.isError = false ∧ event.isWarning = false

/-- Facts change neither how much an event matters nor its code. -/
theorem withFacts_keeps (event : LogEvent) (facts : List (String × String)) :
    (event.withFacts facts).level = event.level ∧ (event.withFacts facts).code = event.code := by
  induction facts generalizing event with
  | nil => exact ⟨rfl, rfl⟩
  | cons x facts ih => exact ih (event.withFact x.1 x.2)

theorem IsQuiet.withFacts {event : LogEvent} (h : event.IsQuiet) (facts : List (String × String)) :
    (event.withFacts facts).IsQuiet := by
  rwa [IsQuiet, isError, isWarning, (withFacts_keeps event facts).1]

theorem isQuiet_success (code : Code) (message : String) : (success code message).IsQuiet := ⟨rfl, rfl⟩

end LogEvent

namespace Collector

/-- The document is reported as failed with an error of the given code: the error is kept under its path
and stands in the report, and the summary counts the document as the one that failed. -/
structure Reports (c : Collector) (path : String) (code : Code) : Prop where
  kept : ∃ event ∈ c.events path, event.isError = true ∧ event.code = code ∧
    (reportEvent path event).toList <:+: c.report.toList
  failed : c.hasErrors path = true
  counted : c.summary.failed = 1

theorem not_reports_empty (path : String) (code : Code) : ¬Reports .empty path code := by
  intro h
  cases h.failed

/-- The collection of a single event. -/
def single (path : String) (event : LogEvent) : Collector := ⟨[⟨path, #[event]⟩]⟩

theorem log?_single (path : String) (event : LogEvent) :
    (single path event).log? path = some ⟨path, #[event]⟩ := by
  simp [log?, single, Path.order_self]

/-- An error that is collected alone is reported. -/
theorem reports_single {event : LogEvent} (h : event.isError = true) (path : String) :
    (single path event).Reports path event.code := by
  have hevents : (single path event).events path = [event] := by rw [events, log?_single]; rfl
  have hfailed : (single path event).hasErrors path = true := by
    rw [hasErrors, log?_single]
    simpa [DocumentLog.hasErrors] using h
  refine ⟨⟨event, hevents ▸ List.mem_singleton_self _, h, rfl, ?_⟩, hfailed, ?_⟩
  · have hreport : (single path event).report =
        String.join [reportDocument ⟨path, #[event]⟩] ++ _ ++ _ := rfl
    have hdocument : reportDocument ⟨path, #[event]⟩ =
        s!"Checking {path}...\n" ++ String.join [reportEvent path event] ++ "\n" := by
      simp [reportDocument, h]
    simp only [hreport, hdocument, String.toList_append, String.toList_join, List.flatMap_singleton]
    refine List.infix_append_of_infix_left (List.infix_append_of_infix_left ?_)
    exact List.infix_append _ _ _
  · simp [summary, single, DocumentLog.hasErrors, h]

end Collector

namespace Journal

variable {p : LoggingPreferences}

/-- The facts about the document change neither how much an event matters nor its code. -/
theorem withDocumentFacts_keeps (document : Option DocumentContext) (event : LogEvent) :
    (withDocumentFacts p document event).level = event.level ∧
      (withDocumentFacts p document event).code = event.code := by
  cases document with
  | none => exact ⟨rfl, rfl⟩
  | some d =>
    simp only [withDocumentFacts]
    split <;> exact ⟨rfl, rfl⟩

theorem isError_withDocumentFacts (document : Option DocumentContext) (event : LogEvent) :
    (withDocumentFacts p document event).isError = event.isError := by
  rw [LogEvent.isError, (withDocumentFacts_keeps document event).1, LogEvent.isError]

theorem isWarning_withDocumentFacts (document : Option DocumentContext) (event : LogEvent) :
    (withDocumentFacts p document event).isWarning = event.isWarning := by
  rw [LogEvent.isWarning, (withDocumentFacts_keeps document event).1, LogEvent.isWarning]

theorem document_log (journal : Journal) (event : LogEvent) :
    (journal.log p event).document = journal.document := by
  rw [log]
  split <;> rfl

theorem collector_log_quiet {event : LogEvent} (h : event.IsQuiet) (journal : Journal) :
    (journal.log p event).collector = journal.collector := by
  rw [log]
  split
  · rfl
  simp only [dispatch, isError_withDocumentFacts, isWarning_withDocumentFacts, h.1, h.2]
  cases journal.document <;> rfl

theorem logAll_quiet {events : List LogEvent} (h : ∀ event ∈ events, event.IsQuiet)
    (journal : Journal) : (journal.logAll p events).collector = journal.collector ∧
      (journal.logAll p events).document = journal.document := by
  induction events generalizing journal with
  | nil => exact ⟨rfl, rfl⟩
  | cons event events ih =>
    obtain ⟨hevent, hrest⟩ := List.forall_mem_cons.1 h
    obtain ⟨hcollector, hdocument⟩ := ih hrest (journal.log p event)
    exact ⟨hcollector.trans (collector_log_quiet hevent journal),
      hdocument.trans (document_log journal event)⟩

/-- An error reaches the collector, whatever is logged. -/
theorem collector_log_error {event : LogEvent} {journal : Journal} {d : DocumentContext}
    (h : event.isError = true) (hd : journal.document = some d) :
    (journal.log p event).collector =
      journal.collector.record d.path (withDocumentFacts p (some d) event) := by
  have hlevel : event.level = .error := eq_of_beq h
  have herror := (@isError_withDocumentFacts p (some d) event).trans h
  rw [log, hlevel]
  simp [dispatch, hd, herror]

/-- Work on a document that emits no errors and no warnings. -/
theorem collector_within_quiet {events : List LogEvent} (h : ∀ event ∈ events, event.IsQuiet)
    (journal : Journal) (d : DocumentContext) :
    (journal.within d (·.logAll p events)).collector = journal.collector :=
  (logAll_quiet h (journal.enter d)).1

/-- Work on the first document, which ends with an error. -/
theorem reports_within {events : List LogEvent} {last : LogEvent} {journal : Journal}
    (hj : journal.collector = .empty) (h : ∀ event ∈ events, event.IsQuiet)
    (hlast : last.isError = true) (d : DocumentContext) :
    (journal.within d (·.logAll p (events ++ [last]))).collector.Reports d.path last.code := by
  obtain ⟨hcollector, hdocument⟩ := @logAll_quiet p events h (journal.enter d)
  have hwithin : (journal.within d (·.logAll p (events ++ [last]))).collector =
      .single d.path (withDocumentFacts p (some d) last) := by
    have hlog := collector_log_error (p := p) hlast hdocument
    rw [hcollector] at hlog
    rw [within, leave, logAll, List.foldl_append]
    exact hlog.trans (congrArg (Collector.record · _ _) hj)
  rw [hwithin, ← (@withDocumentFacts_keeps p (some d) last).2]
  exact Collector.reports_single ((isError_withDocumentFacts (some d) last).trans hlast) d.path

end Journal

end ManagementScript
