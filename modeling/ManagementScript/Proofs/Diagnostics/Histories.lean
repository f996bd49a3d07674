import Mathlib.Algebra.GroupWithZero.Nat
import ManagementScript.Proofs.Diagnostics.Recency
import ManagementScript.Proofs.Diagnostics.Records

/-!
The whole history of a collector, in which it may also have been emptied, and what the summary and the
report then say of it. Both go through the documents on their own and sort the events by themselves; they
count the same errors, warnings and documents.
-/

namespace ManagementScript

namespace Collector

/-- What happens to a collector. -/
inductive Step where
  | record (record : Record)
  | clear

def Step.record? : Step → Option Record
  | record r => some r
  | clear => none

/-- The collector behind one more step. -/
def follow (c : Collector) : Step → Collector
  | .record r => c.record r.1 r.2
  | .clear => .empty

/-- The collector behind all steps. -/
def run (steps : List Step) : Collector := steps.foldl follow .empty

/-- The records since the last time the collector was emptied. -/
def sinceClear (steps : List Step) : List Record :=
  (steps.rtakeWhile (·.record?.isSome)).filterMap Step.record?

theorem run_concat (steps : List Step) (step : Step) : run (steps ++ [step]) = (run steps).follow step := by
  rw [run, List.foldl_append]
  rfl

theorem sinceClear_concat (steps : List Step) (step : Step) : sinceClear (steps ++ [step]) =
    match step with
    | .record r => sinceClear steps ++ [r]
    | .clear => [] := by
  cases step with
  | record r => exact enteredSince_concat_some Step.record? rfl steps
  | clear => exact enteredSince_concat_none Step.record? rfl steps

/-! ### The events of one document -/

/-- What is kept of the events of a document: the first ones up to the limit, and one warning for the rest. -/
def keptOf (events : List LogEvent) : List LogEvent :=
  events.take Limits.documentEvents ++
    if Limits.documentEvents < events.length then [DocumentLog.overflow] else []

theorem keptOf_of_le {events : List LogEvent} (h : events.length ≤ Limits.documentEvents) :
    keptOf events = events := by
  rw [keptOf, List.take_of_length_le h, if_neg (Nat.not_lt.2 h), List.append_nil]

theorem length_keptOf_of_lt {events : List LogEvent} (h : Limits.documentEvents < events.length) :
    (keptOf events).length = Limits.documentEvents + 1 := by
  rw [keptOf, if_pos h, List.length_append, List.length_take_of_le h.le, List.length_singleton]

/-- One more event, below the limit, exactly at it, or behind it. -/
theorem extended_keptOf (event : LogEvent) (events : List LogEvent) :
    extended event (keptOf events) = keptOf (events ++ [event]) := by
  have hlength : (events ++ [event]).length = events.length + 1 := List.length_append
  rcases Nat.lt_trichotomy events.length Limits.documentEvents with hlt | heq | hgt
  · rw [keptOf_of_le hlt.le, extended_of_lt hlt, keptOf_of_le (by omega)]
  · rw [keptOf_of_le heq.le, extended, if_neg (by omega), if_pos heq, keptOf, if_pos (by omega),
      List.take_append_of_le_length heq.ge, List.take_of_length_le heq.le]
  · have hkept := length_keptOf_of_lt hgt
    rw [extended, if_neg (by omega), if_neg (by omega), keptOf, keptOf, if_pos hgt, if_pos (by omega),
      List.take_append_of_le_length hgt.le]

theorem keptOf_eq_nil_iff {events : List LogEvent} : keptOf events = [] ↔ events = [] := by
  apply Iff.intro
  · intro h
    by_cases hle : events.length ≤ Limits.documentEvents
    · exact (keptOf_of_le hle).symm.trans h
    · have hlength := length_keptOf_of_lt (Nat.lt_of_not_le hle)
      rw [h] at hlength
      cases hlength
  · rintro rfl
    rfl

theorem recordedUnder_concat (path : String) (records : List Record) (r : Record) :
    recordedUnder path (records ++ [r]) =
      if Path.order path r.1 = .eq then recordedUnder path records ++ [r.2]
      else recordedUnder path records := by
  have happend : recordedUnder path (records ++ [r]) =
      recordedUnder path records ++ recordedUnder path [r] := by
    rw [recordedUnder, List.filter_append, List.map_append]
    rfl
  rw [happend, recordedUnder_cons]
  split
  · rfl
  · exact List.append_nil _

theorem isAscending_run (steps : List Step) : (run steps).IsAscending := by
  induction steps using List.reverseRecOn with
  | nil => exact isAscending_empty
  | append_singleton steps step ih =>
    rw [run_concat]
    cases step with
    | record r => exact ih.record r.1 r.2
    | clear => exact isAscending_empty

/-- What is stored for a document is what is kept of its own events since the collector was emptied. -/
theorem events_run (steps : List Step) (path : String) :
    (run steps).events path = keptOf (recordedUnder path (sinceClear steps)) := by
  induction steps using List.reverseRecOn with
  | nil => rfl
  | append_singleton steps step ih =>
    rw [run_concat, sinceClear_concat]
    cases step with
    | record r =>
      rw [follow, events_record (isAscending_run steps), ih]
      simp only [recordedUnder_concat]
      split
      · exact extended_keptOf ..
      · rfl
    | clear => rfl

/-! ### The documents -/

/-- The paths that something is collected under. -/
def paths (c : Collector) : List String := c.documents.map (·.path)

theorem Ascending.find?_self {logs : List DocumentLog} (h : Ascending logs) (hlog : log ∈ logs) :
    find? log.path logs = some log := by
  induction logs with
  | nil => cases hlog
  | cons first logs ih =>
    obtain ⟨hfirst, hrest⟩ := List.pairwise_cons.1 h
    rcases List.mem_cons.1 hlog with rfl | hlog
    · exact List.find?_cons_of_pos (by simp [Std.ReflCmp.compare_self])
    · have hne : Path.order log.path first.path = .gt := Std.OrientedCmp.gt_iff_lt.2 (hfirst log hlog)
      rw [find?, List.find?_cons_of_neg (by simp [hne])]
      exact ih hrest hlog

theorem IsAscending.events_path (h : IsAscending c) (hlog : log ∈ c.documents) :
    c.events log.path = log.events.toList := by
  have hfound : c.log? log.path = some log := Ascending.find?_self h hlog
  rw [events, hfound]
  rfl

/-- Something is stored in every log. -/
def IsFilled (c : Collector) : Prop := ∀ log ∈ c.documents, log.events.toList ≠ []

variable {c : Collector}

theorem isFilled_run (steps : List Step) : (run steps).IsFilled := by
  induction steps using List.reverseRecOn with
  | nil => exact List.forall_mem_nil _
  | append_singleton steps step ih =>
    rw [run_concat]
    cases step with
    | record r =>
      intro log hlog
      obtain rfl | ⟨log', hmem, rfl | rfl⟩ := mem_recordInto hlog
      · exact List.cons_ne_nil _ _
      · exact ih log hmem
      · rw [toList_record, extended]
        split
        · exact List.append_ne_nil_of_right_ne_nil _ (List.cons_ne_nil _ _)
        · split
          · exact List.append_ne_nil_of_right_ne_nil _ (List.cons_ne_nil _ _)
          · exact ih log' hmem
    | clear => exact List.forall_mem_nil _

theorem IsFilled.exists_log_iff (h : c.IsFilled) (path : String) :
    (∃ listed ∈ c.paths, Path.order path listed = .eq) ↔ c.events path ≠ [] := by
  have hevents : c.events path = ((c.log? path).map (·.events.toList)).getD [] := rfl
  cases hfound : c.log? path with
  | none =>
    have hnone := List.find?_eq_none.1 hfound
    rw [hevents, hfound]
    refine iff_of_false ?_ fun hne => hne rfl
    rintro ⟨listed, hlisted, horder⟩
    obtain ⟨log, hlog, rfl⟩ := List.mem_map.1 hlisted
    exact hnone log hlog (by simpa using horder)
  | some log =>
    have hlog := List.mem_of_find?_eq_some hfound
    have horder : Path.order path log.path = .eq := by simpa using List.find?_some hfound
    rw [hevents, hfound]
    exact iff_of_true ⟨log.path, List.mem_map_of_mem hlog, horder⟩ (h log hlog)

/-- The documents are those with an event since the collector was emptied. -/
theorem exists_path_run_iff (steps : List Step) (path : String) :
    (∃ listed ∈ (run steps).paths, Path.order path listed = .eq) ↔
      recordedUnder path (sinceClear steps) ≠ [] := by
  rw [(isFilled_run steps).exists_log_iff, events_run, Ne, keptOf_eq_nil_iff]

/-! ### The summary and the report -/

/-- The entries of a document in the report. -/
def printed (log : DocumentLog) : List String :=
  (log.events.toList.filter fun event => event.isError || event.isWarning).map (reportEvent log.path)

/-- The part of the report about one document. -/
def block (log : DocumentLog) : String :=
  if printed log = [] then "" else s!"Checking {log.path}...\n" ++ String.join (printed log) ++ "\n"

/-- The end of the report. -/
def totals (s : Summary) : String :=
  (if s.errors = 0 then "" else s!"\nTotal errors: {s.errors}\n") ++
    if s.warnings = 0 then "" else s!"Total warnings: {s.warnings}\n"

theorem reportDocument_eq_block (log : DocumentLog) : reportDocument log = block log := by
  simp only [reportDocument, block, printed, List.isEmpty_iff, List.map_eq_nil_iff]

theorem report_eq (c : Collector) : c.report = String.join (c.documents.map block) ++ totals c.summary := by
  rw [← funext reportDocument_eq_block]
  exact String.append_assoc ..

/-- An entry with a label in front of its code. -/
def IsLabelled (label entry : String) : Prop := label.toList ++ ['['] <+: entry.toList

instance (label entry : String) : Decidable (IsLabelled label entry) :=
  inferInstanceAs (Decidable (_ <+: _))

theorem isLabelled_reportEvent (path : String) (event : LogEvent) :
    IsLabelled (if event.isError then "error" else "warning") (reportEvent path event) := by
  simp only [IsLabelled, reportEvent, String.toList_append, List.append_assoc]
  exact (List.prefix_append_right_inj _).2 ⟨_, rfl⟩

theorem not_isLabelled_both {entry : String} (he : IsLabelled "error" entry)
    (hw : IsLabelled "warning" entry) : False := by
  have hprefix := List.prefix_of_prefix_length_le he hw (by decide)
  exact absurd hprefix (by decide)

theorem isLabelled_error_iff (path : String) (event : LogEvent) :
    IsLabelled "error" (reportEvent path event) ↔ event.isError = true := by
  have hlabel := isLabelled_reportEvent path event
  cases h : event.isError with
  | true => simpa [h] using hlabel
  | false => exact iff_of_false (not_isLabelled_both · (by simpa [h] using hlabel)) nofun

theorem isLabelled_warning_iff (path : String) (event : LogEvent) :
    IsLabelled "warning" (reportEvent path event) ↔ event.isError = false := by
  have hlabel := isLabelled_reportEvent path event
  cases h : event.isError with
  | true => exact iff_of_false (not_isLabelled_both (by simpa [h] using hlabel)) nofun
  | false => simpa [h] using hlabel

theorem hasErrors_eq (log : DocumentLog) : log.hasErrors = log.events.toList.any (·.isError) :=
  Array.any_toList.symm

theorem hasWarnings_eq (log : DocumentLog) : log.hasWarnings = log.events.toList.any (·.isWarning) :=
  Array.any_toList.symm

/-- Documents are counted by what is stored under their paths. -/
theorem IsAscending.countP_paths (h : IsAscending c) (p : List LogEvent → Bool) :
    c.paths.countP (fun path => p (c.events path)) = c.documents.countP fun log => p log.events.toList := by
  rw [paths, List.countP_map]
  apply List.countP_congr
  intro log hlog
  rw [Function.comp_apply, h.events_path hlog]

/-- The successful documents are those that the other two counts leave. -/
theorem summary_total (c : Collector) : c.summary.documents =
    c.summary.successful + c.summary.failed + c.summary.withWarnings := by
  have hrest : c.documents.countP (fun log => !log.hasErrors && log.hasWarnings) ≤
      c.documents.countP fun log => !log.hasErrors :=
    List.countP_mono_left fun log _ h => (Bool.and_eq_true_iff.1 h).1
  have hall := List.length_eq_countP_add_countP (fun log : DocumentLog => log.hasErrors) (l := c.documents)
  simp only [Bool.not_eq_true, Bool.decide_eq_false] at hall
  simp only [summary]
  omega

/-! Whether an event is counted is asked of the event in the summary, and of its entry in the report. -/

theorem countP_allEvents (c : Collector) (p : LogEvent → Bool) : c.allEvents.countP (p ·.2) =
    (c.documents.map fun log => log.events.toList.countP p).sum := by
  rw [allEvents, List.countP_flatMap]
  congr 2
  funext log
  rw [Function.comp_apply, List.countP_map]
  rfl

theorem countP_printed {label : String} {p : LogEvent → Bool} (h : ∀ path event, p event = true ↔
      IsLabelled label (reportEvent path event) ∧ (event.isError || event.isWarning) = true)
    (c : Collector) : (c.documents.flatMap printed).countP (IsLabelled label ·) =
      (c.documents.map fun log => log.events.toList.countP p).sum := by
  rw [List.countP_flatMap]
  congr 2
  funext log
  rw [Function.comp_apply, printed, List.countP_map, List.countP_filter]
  apply List.countP_congr
  intro event _
  rw [Bool.and_eq_true, Function.comp_apply, decide_eq_true_iff]
  exact (h log.path event).symm

theorem summary_errors (c : Collector) :
    c.summary.errors = (c.documents.flatMap printed).countP (IsLabelled "error" ·) := by
  refine (c.countP_allEvents (·.isError)).trans (countP_printed (fun path event => ?_) c).symm
  rw [isLabelled_error_iff]
  cases event.isError <;> simp

theorem summary_warnings (c : Collector) :
    c.summary.warnings = (c.documents.flatMap printed).countP (IsLabelled "warning" ·) := by
  refine (c.countP_allEvents (·.isWarning)).trans (countP_printed (fun path event => ?_) c).symm
  rw [isLabelled_warning_iff, LogEvent.isError, LogEvent.isWarning]
  cases event.level <;> simp

/-- There are no other entries. -/
theorem length_printed (c : Collector) :
    (c.documents.flatMap printed).length = c.summary.errors + c.summary.warnings := by
  rw [summary_errors, summary_warnings, List.length_eq_countP_add_countP (IsLabelled "error" ·)]
  congr 1
  apply List.countP_congr
  intro entry hentry
  obtain ⟨log, _, hentry⟩ := List.mem_flatMap.1 hentry
  obtain ⟨event, _, rfl⟩ := List.mem_map.1 hentry
  simp [isLabelled_error_iff, isLabelled_warning_iff]

/-- What the summary counts: the documents by the worst that is stored for them, and the entries of the
report by their labels. -/
structure Tallies (c : Collector) : Prop where
  documents : c.summary.documents = c.paths.length
  total : c.summary.documents = c.summary.successful + c.summary.failed + c.summary.withWarnings
  failed : c.summary.failed = c.paths.countP fun path => (c.events path).any (·.isError)
  withWarnings : c.summary.withWarnings = c.paths.countP fun path =>
    !(c.events path).any (·.isError) && (c.events path).any (·.isWarning)
  report : c.report = String.join (c.documents.map block) ++ totals c.summary
  errors : c.summary.errors = (c.documents.flatMap printed).countP (IsLabelled "error" ·)
  warnings : c.summary.warnings = (c.documents.flatMap printed).countP (IsLabelled "warning" ·)
  entries : (c.documents.flatMap printed).length = c.summary.errors + c.summary.warnings

theorem IsAscending.tallies (h : IsAscending c) : c.Tallies where
  documents := (List.length_map _).symm
  total := c.summary_total
  failed := by
    rw [h.countP_paths fun events => events.any (·.isError)]
    exact List.countP_congr fun log _ => by rw [hasErrors_eq]
  withWarnings := by
    rw [h.countP_paths fun events => !events.any (·.isError) && events.any (·.isWarning)]
    exact List.countP_congr fun log _ => by rw [hasErrors_eq, hasWarnings_eq]
  report := c.report_eq
  errors := c.summary_errors
  warnings := c.summary_warnings
  entries := c.length_printed

/-- Whatever is recorded, for whichever documents, and whenever the collector is emptied in between: it then
stores for each document the first events up to the limit and one warning for the rest, lists each document
with an event once, and counts documents, errors and warnings as they are stored and printed. -/
theorem history_stored_and_counted (steps : List Step) :
    (∀ path, (run steps).events path = keptOf (recordedUnder path (sinceClear steps))) ∧
    (∀ path, (∃ listed ∈ (run steps).paths, Path.order path listed = .eq) ↔
      recordedUnder path (sinceClear steps) ≠ []) ∧
    (run steps).paths.Pairwise (fun a b => Path.order a b = .lt) ∧
    (run steps).Tallies :=
  ⟨events_run steps, exists_path_run_iff steps, List.pairwise_map.2 (isAscending_run steps),
    (isAscending_run steps).tallies⟩

end Collector

end ManagementScript
