import ManagementScript.Proofs.Diagnostics.Histories

/-!
Which documents count as failed. An error counts where it is among the first events of its document; behind
the limit on the events of a document an error leaves no more than the warning that there were too many.
-/

namespace ManagementScript.Collector

theorem hasErrors_eq_any (c : Collector) (path : String) :
    c.hasErrors path = (c.events path).any (·.isError) := by
  rw [hasErrors, events]
  cases c.log? path with
  | none => rfl
  | some log => exact hasErrors_eq log

/-- The warning in the place of the events that are not kept is no error. -/
theorem any_isError_keptOf (events : List LogEvent) :
    (keptOf events).any (·.isError) = (events.take Limits.documentEvents).any (·.isError) := by
  have hoverflow : DocumentLog.overflow.isError = false := rfl
  rw [keptOf, List.any_append]
  split
  · rw [List.any_cons, hoverflow, List.any_nil, Bool.or_false, Bool.or_false]
  · rw [List.any_nil, Bool.or_false]

theorem hasErrors_run_iff (steps : List Step) (path : String) : (run steps).hasErrors path = true ↔
    ∃ event ∈ (recordedUnder path (sinceClear steps)).take Limits.documentEvents,
      event.isError = true := by
  rw [hasErrors_eq_any, events_run, any_isError_keptOf, List.any_eq_true]

theorem recordedUnder_congr (h : Path.order path other = .eq) (records : List Record) :
    recordedUnder path records = recordedUnder other records := by
  simp only [recordedUnder, Std.TransCmp.congr_left h]

/-- A document with an error is listed under its path, or under another spelling of it. -/
theorem exists_failed_of_hasErrors (h : (run steps).hasErrors path = true) :
    ∃ listed ∈ (run steps).paths, Path.order path listed = .eq ∧
      (run steps).hasErrors listed = true := by
  obtain ⟨event, hevent, herror⟩ := (hasErrors_run_iff steps path).1 h
  have hne : recordedUnder path (sinceClear steps) ≠ [] :=
    List.ne_nil_of_mem (List.mem_of_mem_take hevent)
  obtain ⟨listed, hlisted, horder⟩ := (exists_path_run_iff steps path).2 hne
  rw [recordedUnder_congr horder] at hevent
  exact ⟨listed, hlisted, horder, (hasErrors_run_iff steps listed).2 ⟨event, hevent, herror⟩⟩

theorem summary_failed (steps : List Step) :
    (run steps).summary.failed = (run steps).paths.countP (run steps).hasErrors := by
  rw [(isAscending_run steps).tallies.failed, funext (hasErrors_eq_any (run steps))]

/-- Whatever is recorded, for whichever documents, and whenever the collector is emptied in between: a
document has errors exactly if one is among its first events since then, as many as there is room for. The
summary counts these documents as failed, each of them once. -/
theorem early_errors_fail (steps : List Step) :
    (∀ path, (run steps).hasErrors path = true ↔
      ∃ event ∈ (recordedUnder path (sinceClear steps)).take Limits.documentEvents,
        event.isError = true) ∧
    (∀ path, (run steps).hasErrors path = true → ∃ listed ∈ (run steps).paths,
      Path.order path listed = .eq ∧ (run steps).hasErrors listed = true) ∧
    (run steps).paths.Pairwise (fun a b => Path.order a b = .lt) ∧
    (run steps).summary.failed = (run steps).paths.countP (run steps).hasErrors :=
  ⟨hasErrors_run_iff steps, fun _ => exists_failed_of_hasErrors,
    List.pairwise_map.2 (isAscending_run steps), summary_failed steps⟩

/-! ### An error behind the limit -/

theorem sinceClear_records (records : List Record) : sinceClear (records.map .record) = records := by
  induction records using List.reverseRecOn with
  | nil => rfl
  | append_singleton records r ih => rw [List.map_append, List.map_singleton, sinceClear_concat, ih]

theorem recordedUnder_self (path : String) (events : List LogEvent) :
    recordedUnder path (events.map (path, ·)) = events := by
  induction events with
  | nil => rfl
  | cons event events ih => rw [List.map_cons, recordedUnder_cons, if_pos Std.ReflCmp.compare_self, ih]

/-- As many warnings as a document has room for, and then an error. -/
def lateError : List LogEvent :=
  List.replicate Limits.documentEvents (.warning "busy") ++ [.error ⟨"E080"⟩ "late"]

/-- An error behind the limit is lost: the document has none, and does not count as failed. -/
theorem error_behind_limit_lost : ¬∀ (steps : List Step) (path : String),
    (run steps).hasErrors path = true ↔
      ∃ event ∈ recordedUnder path (sinceClear steps), event.isError = true := by
  intro h
  have hlost := h (lateError.map fun event => .record ("a.xml", event)) "a.xml"
  have hsteps : sinceClear (lateError.map fun event => .record ("a.xml", event)) =
      lateError.map ("a.xml", ·) := by
    rw [← sinceClear_records (lateError.map _), List.map_map]
    rfl
  have hfront : lateError.take Limits.documentEvents =
      List.replicate Limits.documentEvents (.warning "busy") :=
    List.take_left' List.length_replicate
  rw [hasErrors_run_iff, hsteps, recordedUnder_self, hfront] at hlost
  obtain ⟨event, hevent, herror⟩ :=
    hlost.2 ⟨.error ⟨"E080"⟩ "late", List.mem_append_right _ (List.mem_singleton_self _), rfl⟩
  rw [List.eq_of_mem_replicate hevent] at herror
  cases herror

end ManagementScript.Collector
