import ManagementScript.Diagnostics.Collector

/-!
What is collected under a path. Paths are ordered by their steps, so the documents of a collector that
began empty stand in ascending order, and an event that is recorded for one of them is found under its
path and nowhere else.
-/

namespace ManagementScript

namespace Path

/-- The name of a step that has one. -/
def Step.label : Step → String
  | name text => text
  | _ => ""

theorem Step.order_eq_compareLex : order = compareLex (compareOn rank) (compareOn label) := by
  funext a b
  cases a <;> cases b <;> rfl

instance : Std.TransCmp Step.order := by
  rw [Step.order_eq_compareLex]
  infer_instance

theorem orderSteps_eq_compareLex : orderSteps = List.compareLex Step.order := by
  funext as bs
  induction as generalizing bs with
  | nil => cases bs <;> rfl
  | cons a as ih =>
    cases bs with
    | nil => rfl
    | cons b bs => rw [orderSteps, ih, List.compareLex_cons_cons]

instance : Std.TransCmp orderSteps := by
  rw [orderSteps_eq_compareLex]
  infer_instance

instance : Std.TransCmp order where
  eq_swap := by
    intro a b
    rw [order, order]
    exact Std.OrientedCmp.eq_swap
  isLE_trans := by
    intro a b c
    rw [order, order, order]
    exact Std.TransCmp.isLE_trans

end Path

theorem DocumentLog.path_record (log : DocumentLog) (event : LogEvent) :
    (log.record event).path = log.path := by
  rw [record]
  split
  · rfl
  · split <;> rfl

namespace Collector

/-- The logs of documents, each before those with a greater path. -/
def Ascending (logs : List DocumentLog) : Prop :=
  logs.Pairwise fun a b => Path.order a.path b.path = .lt

/-- A log behind a record is new, or an old one, maybe with one more event. -/
theorem mem_recordInto (h : log ∈ recordInto path event logs) :
    log = ⟨path, #[event]⟩ ∨ ∃ log' ∈ logs, log = log' ∨ log = log'.record event := by
  induction logs with
  | nil => exact .inl (List.mem_singleton.1 h)
  | cons first logs ih =>
    rw [recordInto] at h
    split at h
    · rcases List.mem_cons.1 h with rfl | h
      · exact .inl rfl
      · exact .inr ⟨log, h, .inl rfl⟩
    · rcases List.mem_cons.1 h with rfl | h
      · exact .inr ⟨first, List.mem_cons_self .., .inr rfl⟩
      · exact .inr ⟨log, List.mem_cons_of_mem _ h, .inl rfl⟩
    · rcases List.mem_cons.1 h with rfl | h
      · exact .inr ⟨log, List.mem_cons_self .., .inl rfl⟩
      · obtain hnew | ⟨log', hmem, hold⟩ := ih h
        · exact .inl hnew
        · exact .inr ⟨log', List.mem_cons_of_mem _ hmem, hold⟩

theorem path_of_mem_recordInto (h : log ∈ recordInto path event logs) :
    log.path = path ∨ ∃ log' ∈ logs, log.path = log'.path := by
  obtain rfl | ⟨log', hmem, rfl | rfl⟩ := mem_recordInto h
  · exact .inl rfl
  · exact .inr ⟨log, hmem, rfl⟩
  · exact .inr ⟨log', hmem, log'.path_record event⟩

theorem Ascending.recordInto {logs : List DocumentLog} (h : Ascending logs) (path : String)
    (event : LogEvent) : Ascending (recordInto path event logs) := by
  induction logs with
  | nil => exact List.pairwise_singleton ..
  | cons first logs ih =>
    obtain ⟨hfirst, hrest⟩ := List.pairwise_cons.1 h
    rw [Collector.recordInto]
    split
    · next hlt =>
      refine .cons (fun log hlog => ?_) h
      rcases List.mem_cons.1 hlog with rfl | hlog
      · exact hlt
      · exact Std.TransCmp.lt_trans hlt (hfirst log hlog)
    · refine .cons (fun log hlog => ?_) hrest
      rw [DocumentLog.path_record]
      exact hfirst log hlog
    · next hgt =>
      refine .cons (fun log hlog => ?_) (ih hrest)
      rcases path_of_mem_recordInto hlog with hpath | ⟨log', hlog', hpath⟩
      · rw [hpath]
        exact Std.OrientedCmp.gt_iff_lt.1 hgt
      · rw [hpath]
        exact hfirst log' hlog'

/-- The log of a path among the logs of documents. -/
def find? (path : String) (logs : List DocumentLog) : Option DocumentLog :=
  logs.find? fun log => Path.order path log.path == .eq

theorem find?_cons (path : String) (first : DocumentLog) (logs : List DocumentLog) :
    find? path (first :: logs) =
      if Path.order path first.path = .eq then some first else find? path logs := by
  by_cases h : Path.order path first.path = .eq
  · rw [if_pos h, find?, List.find?_cons_of_pos (by simpa using h)]
  · rw [if_neg h, find?, List.find?_cons_of_neg (by simpa using h)]
    rfl

theorem find?_eq_none (h : ∀ log ∈ logs, Path.order path log.path = .lt) : find? path logs = none := by
  rw [find?, List.find?_eq_none]
  intro log hlog
  simp [h log hlog]

/-- A recorded event changes the log of its own path only. -/
theorem find?_recordInto {logs : List DocumentLog} (h : Ascending logs) (path other : String)
    (event : LogEvent) : find? other (recordInto path event logs) =
      if Path.order other path = .eq then
        some (((find? other logs).map (·.record event)).getD ⟨path, #[event]⟩)
      else find? other logs := by
  induction logs with
  | nil => exact find?_cons other _ []
  | cons first logs ih =>
    obtain ⟨hfirst, hrest⟩ := List.pairwise_cons.1 h
    rw [recordInto]
    split
    · next hlt =>
      rw [find?_cons]
      by_cases he : Path.order other path = .eq
      · -- All the logs there are stand behind the path.
        have hnone : find? other (first :: logs) = none := by
          refine find?_eq_none fun log hlog => Std.TransCmp.lt_of_eq_of_lt he ?_
          rcases List.mem_cons.1 hlog with rfl | hlog
          · exact hlt
          · exact Std.TransCmp.lt_trans hlt (hfirst log hlog)
        rw [if_pos he, if_pos he, hnone]
        rfl
      · rw [if_neg he, if_neg he]
    · next heq =>
      have hother : Path.order other path = Path.order other first.path :=
        Std.TransCmp.congr_right heq
      rw [find?_cons, find?_cons, DocumentLog.path_record, hother]
      by_cases he : Path.order other first.path = .eq
      · rw [if_pos he, if_pos he, if_pos he]
        rfl
      · rw [if_neg he, if_neg he, if_neg he]
    · next hgt =>
      rw [find?_cons, find?_cons, ih hrest]
      by_cases he : Path.order other first.path = .eq
      · have hlt := Std.TransCmp.lt_of_eq_of_lt he (Std.OrientedCmp.gt_iff_lt.1 hgt)
        rw [if_pos he, if_pos he, if_neg (by simp [hlt])]
      · rw [if_neg he, if_neg he]

/-- The kept events of a document after one more event. The first event without room leaves a warning in its
place, and the later ones leave nothing. -/
def extended (event : LogEvent) (kept : List LogEvent) : List LogEvent :=
  if kept.length < Limits.documentEvents then kept ++ [event]
  else if kept.length = Limits.documentEvents then kept ++ [DocumentLog.overflow]
  else kept

theorem extended_of_lt {kept : List LogEvent} (h : kept.length < Limits.documentEvents) :
    extended event kept = kept ++ [event] := if_pos h

theorem toList_record (log : DocumentLog) (event : LogEvent) :
    (log.record event).events.toList = extended event log.events.toList := by
  rw [DocumentLog.record, extended, Array.length_toList]
  split
  · exact Array.toList_push ..
  · split
    · exact Array.toList_push ..
    · rfl

/-- The documents stand in the order of their paths. -/
def IsAscending (c : Collector) : Prop := Ascending c.documents

theorem isAscending_empty : empty.IsAscending := List.Pairwise.nil

theorem IsAscending.record (h : IsAscending c) (path : String) (event : LogEvent) :
    (c.record path event).IsAscending := Ascending.recordInto h path event

theorem events_record (h : IsAscending c) (path other : String) (event : LogEvent) :
    (c.record path event).events other =
      if Path.order other path = .eq then extended event (c.events other) else c.events other := by
  have hlog : (c.record path event).log? other = _ := find?_recordInto h path other event
  rw [events, hlog]
  split
  · have hold : c.log? other = find? other c.documents := rfl
    rw [events, hold]
    cases find? other c.documents with
    | none => rfl
    | some log => exact toList_record log event
  · rfl

/-! ### Many records -/

/-- An event and the path it is recorded under. -/
abbrev Record := String × LogEvent

/-- The events that are recorded under a path, in order. -/
def recordedUnder (path : String) (records : List Record) : List LogEvent :=
  (records.filter fun r => Path.order path r.1 == .eq).map (·.2)

/-- The collector after all records. -/
def recordAll (c : Collector) (records : List Record) : Collector :=
  records.foldl (fun c r => c.record r.1 r.2) c

theorem recordAll_append (c : Collector) (first second : List Record) :
    c.recordAll (first ++ second) = (c.recordAll first).recordAll second := List.foldl_append ..

theorem IsAscending.recordAll (h : IsAscending c) (records : List Record) :
    (c.recordAll records).IsAscending := by
  induction records generalizing c with
  | nil => exact h
  | cons r records ih => exact ih (h.record r.1 r.2)

theorem recordedUnder_cons (path : String) (r : Record) (records : List Record) :
    recordedUnder path (r :: records) =
      if Path.order path r.1 = .eq then r.2 :: recordedUnder path records
      else recordedUnder path records := by
  by_cases h : Path.order path r.1 = .eq
  · rw [if_pos h, recordedUnder, List.filter_cons_of_pos (by simpa using h)]
    rfl
  · rw [if_neg h, recordedUnder, List.filter_cons_of_neg (by simpa using h)]
    rfl

theorem recordedUnder_sublist {few many : List Record} (path : String) (h : few.Sublist many) :
    (recordedUnder path few).Sublist (recordedUnder path many) := (h.filter _).map _

/-- Where there is room for all of them, the events of a path are those that are recorded under it. -/
theorem events_recordAll (h : IsAscending c) {records : List Record}
    (hroom : (c.events path).length + (recordedUnder path records).length ≤ Limits.documentEvents) :
    (c.recordAll records).events path = c.events path ++ recordedUnder path records := by
  induction records generalizing c with
  | nil => exact (List.append_nil _).symm
  | cons r records ih =>
    have hnext := events_record h r.1 path r.2
    rw [recordedUnder_cons] at hroom ⊢
    split at hroom
    · next heq =>
      rw [List.length_cons] at hroom
      rw [if_pos heq, extended_of_lt (by omega)] at hnext
      have hrest := ih (h.record r.1 r.2) (by rw [hnext, List.length_append, List.length_singleton]; omega)
      rw [if_pos heq, List.append_cons, ← hnext]
      exact hrest
    · next hne =>
      rw [if_neg hne] at hnext
      rw [if_neg hne, ← hnext]
      exact ih (h.record r.1 r.2) (by rw [hnext]; exact hroom)

end Collector

end ManagementScript
