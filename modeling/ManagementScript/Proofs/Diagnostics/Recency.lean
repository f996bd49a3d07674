import Mathlib.Data.List.DropRight
import ManagementScript.Diagnostics.RecentLog

/-!
The history of a recent log, in which it may also have been emptied. The log holds the newest events, as many
as it has room for; when it is full, one more event takes the place of the oldest.
-/

namespace ManagementScript

/-- What the steps enter behind the last one that enters nothing. -/
def enteredSince (entered? : α → Option β) (steps : List α) : List β :=
  (steps.rtakeWhile fun step => (entered? step).isSome).filterMap entered?

section

variable (entered? : α → Option β) {step : α}

theorem enteredSince_concat_some (h : entered? step = some entry) (steps : List α) :
    enteredSince entered? (steps ++ [step]) = enteredSince entered? steps ++ [entry] := by
  have hentered : (entered? step).isSome = true := by rw [h]; rfl
  rw [enteredSince, List.rtakeWhile_concat, if_pos hentered, List.filterMap_append,
    List.filterMap_cons_some h]
  rfl

theorem enteredSince_concat_none (h : entered? step = none) (steps : List α) :
    enteredSince entered? (steps ++ [step]) = [] := by
  have hempty : ¬(entered? step).isSome = true := by rw [h]; exact Bool.false_ne_true
  rw [enteredSince, List.rtakeWhile_concat, if_neg hempty, List.filterMap_nil]

end

namespace RecentLog

/-- What happens to a recent log. -/
inductive Step where
  | keep (event : LogEvent)
  | clear

def Step.event? : Step → Option LogEvent
  | keep event => some event
  | clear => none

/-- The log behind one more step. -/
def follow (log : RecentLog) : Step → RecentLog
  | .keep event => log.keep event
  | .clear => empty

/-- The log behind all steps. -/
def run (steps : List Step) : RecentLog := steps.foldl follow empty

/-- The events since the last time the log was emptied. -/
def sinceClear (steps : List Step) : List LogEvent := enteredSince Step.event? steps

theorem run_concat (steps : List Step) (step : Step) : run (steps ++ [step]) = (run steps).follow step := by
  rw [run, List.foldl_append]
  rfl

theorem sinceClear_concat (steps : List Step) (step : Step) : sinceClear (steps ++ [step]) =
    match step with
    | .keep event => sinceClear steps ++ [event]
    | .clear => [] := by
  cases step with
  | keep event => exact enteredSince_concat_some Step.event? rfl steps
  | clear => exact enteredSince_concat_none Step.event? rfl steps

/-! ### One more event -/

theorem toList_keep (log : RecentLog) (event : LogEvent) :
    (log.keep event).events.toList = log.events.toList.drop log.excess ++ [event] := by
  rw [keep]
  split
  · next h => rw [h, List.drop_zero, Array.toList_push]
  · rw [Array.toList_push, Array.toList_extract, List.extract_eq_take_drop, List.take_of_length_le (by simp)]

/-- The newest of some events and one more. -/
theorem rtake_concat {n : Nat} (h : 0 < n) (events : List LogEvent) (event : LogEvent) :
    (events ++ [event]).rtake n =
      (events.rtake n).drop ((events.rtake n).length + 1 - n) ++ [event] := by
  simp only [List.rtake, List.length_append, List.length_singleton, List.length_drop, List.drop_drop]
  rw [List.drop_append_of_le_length (by omega)]
  congr 2
  omega

theorem recentEvents_pos : 0 < Limits.recentEvents := Nat.zero_lt_succ _

theorem events_run (steps : List Step) :
    (run steps).events.toList = (sinceClear steps).rtake Limits.recentEvents := by
  induction steps using List.reverseRecOn with
  | nil => exact (List.rtake_nil _).symm
  | append_singleton steps step ih =>
    rw [run_concat, sinceClear_concat]
    cases step with
    | keep event =>
      rw [follow, toList_keep, excess, ← Array.length_toList, ih]
      exact (rtake_concat recentEvents_pos _ event).symm
    | clear => exact (List.rtake_nil _).symm

theorem size_run (steps : List Step) :
    (run steps).size = min (sinceClear steps).length Limits.recentEvents := by
  rw [size, ← Array.length_toList, events_run, List.rtake, List.length_drop]
  omega

/-- Whatever is logged, and whenever the log is emptied in between: it holds the newest of the events since
then, in their order and as many as there is room for. Where it is full one event makes room for the next,
and otherwise none; so no more events are taken out than there are. -/
theorem newest_kept (steps : List Step) :
    (run steps).events.toList = (sinceClear steps).rtake Limits.recentEvents ∧
    (run steps).size = min (sinceClear steps).length Limits.recentEvents ∧
    (run steps).excess = (if (run steps).size = Limits.recentEvents then 1 else 0) ∧
    (run steps).excess ≤ (run steps).size := by
  have hroom := recentEvents_pos
  have hsize := size_run steps
  have hexcess : (run steps).excess = (run steps).size + 1 - Limits.recentEvents := rfl
  refine ⟨events_run steps, hsize, ?_, ?_⟩
  · split <;> omega
  · omega

end RecentLog

end ManagementScript
