import Mathlib.Data.List.DropRight
import Mathlib.Logic.Function.Basic
import ManagementScript.Command.Script
import ManagementScript.Proofs.Result

/-!
Several scripts that are written side by side. A script goes on to another one as a whole: either it is
given away, and what has its name afterwards is a new script, or a copy of it is handed over. Whatever the
order of the calls, a script is the log of the calls on it that succeeded.
-/

namespace ManagementScript

namespace Script

/-- One call on scripts that have names. -/
inductive Call (ι : Type) where
  | push (target : ι) (command : Command)
  /-- The source is given away, also where the call fails. -/
  | give (target source : ι) (apart : source ≠ target)
  /-- The source hands over a copy, maybe to itself. -/
  | copy (target source : ι)

namespace Call

variable {ι : Type}

def target : Call ι → ι
  | push target _ | give target .. | copy target _ => target

/-- The script that is given away. -/
def given? : Call ι → Option ι
  | give _ source _ => some source
  | push .. | copy .. => none

/-- What is to be added to the target. -/
def offered (scripts : ι → Script) : Call ι → List Command
  | push _ command => [command]
  | give _ source _ | copy _ source => (scripts source).toList

/-- What becomes of the target. -/
def result (scripts : ι → Script) : Call ι → Except CapacityError Script
  | push target command => (scripts target).push command
  | give target source _ | copy target source => (scripts target).extend (scripts source)

theorem given?_ne_target (call : Call ι) : call.given? ≠ some call.target := by
  cases call with
  | push | copy => nofun
  | give target source apart => exact fun h => apart (Option.some.inj h)

end Call

theorem length_toList (s : Script) : s.toList.length = s.size := Array.length_toList

theorem result_eq_ok_iff {scripts : ι → Script} {call : Call ι} {script : Script} :
    call.result scripts = .ok script ↔
      (scripts call.target).size + (call.offered scripts).length ≤ Limits.commands ∧
        script.toList = (scripts call.target).toList ++ call.offered scripts := by
  cases call with
  | push target command => exact push_eq_ok_iff
  | give target source | copy target source =>
    simp only [Call.result, Call.offered, Call.target, extend_eq_ok_iff, length_toList]

/-- With room for all that a call offers, it succeeds. -/
theorem exists_result {scripts : ι → Script} {call : Call ι}
    (h : (scripts call.target).size + (call.offered scripts).length ≤ Limits.commands) :
    ∃ script, call.result scripts = .ok script :=
  ⟨⟨((scripts call.target).toList ++ call.offered scripts).toArray⟩, result_eq_ok_iff.2 ⟨h, rfl⟩⟩

/-- A call that fails tells the limit. -/
theorem result_eq_error_iff {scripts : ι → Script} {call : Call ι} {e : CapacityError} :
    call.result scripts = .error e ↔ e = ⟨Limits.commands⟩ ∧
      Limits.commands < (scripts call.target).size + (call.offered scripts).length := by
  cases call with
  | push target command =>
    rw [Call.result, push, ite_error_eq_error_iff, and_comm]
    exact and_congr_right' Nat.lt_succ_iff.symm
  | give target source | copy target source =>
    rw [Call.result, extend, ite_error_eq_error_iff, and_comm, Call.offered, length_toList]
    rfl

/-- A call as it is told afterwards. -/
structure Entry (ι : Type) where
  call : Call ι
  offered : List Command
  succeeded : Bool

/-- What the successful calls on a script have added since its name stands for it, in order. -/
def added [DecidableEq ι] (name : ι) (entries : List (Entry ι)) : List Command :=
  ((entries.rtakeWhile fun entry => entry.call.given? ≠ some name).filter fun entry =>
    entry.call.target = name ∧ entry.succeeded).flatMap (·.offered)

/-- Scripts by their names, and all calls on them. -/
structure Session (ι : Type) where
  scripts : ι → Script
  entries : List (Entry ι)

namespace Session

variable {ι : Type} [DecidableEq ι]

def empty : Session ι := ⟨fun _ => .empty, []⟩

/-- The scripts without the one that is given away. -/
def kept (s : Session ι) (call : Call ι) (name : ι) : Script :=
  if call.given? = some name then .empty else s.scripts name

def perform (s : Session ι) (call : Call ι) : Session ι where
  scripts := match call.result s.scripts with
    | .ok script => Function.update (s.kept call) call.target script
    | .error _ => s.kept call
  entries := s.entries ++ [⟨call, call.offered s.scripts, (call.result s.scripts).isOk⟩]

/-- The session behind all calls. -/
def run (calls : List (Call ι)) : Session ι := calls.foldl perform empty

theorem run_concat (calls : List (Call ι)) (call : Call ι) :
    run (calls ++ [call]) = (run calls).perform call := by
  rw [run, List.foldl_append]
  rfl

/-! ### One call -/

variable {s : Session ι} {call : Call ι}

theorem kept_target (s : Session ι) (call : Call ι) : s.kept call call.target = s.scripts call.target :=
  if_neg call.given?_ne_target

/-- A call changes its target and takes what is given away; all other scripts stay. -/
theorem scripts_perform_of_ne (h : name ≠ call.target) :
    (s.perform call).scripts name = s.kept call name := by
  rw [perform]
  split
  · exact Function.update_of_ne h ..
  · rfl

theorem scripts_perform_of_ok (h : call.result s.scripts = .ok script) :
    (s.perform call).scripts call.target = script := by
  simp only [perform, h, Function.update_self]

theorem scripts_perform_of_error (h : call.result s.scripts = .error e) :
    (s.perform call).scripts = s.kept call := by
  simp only [perform, h]

theorem added_perform (name : ι) : added name (s.perform call).entries =
    if call.given? = some name then []
    else added name s.entries ++
      if call.target = name ∧ (call.result s.scripts).isOk then call.offered s.scripts else [] := by
  split
  · next hgiven =>
    rw [added, perform, List.rtakeWhile_concat_neg _ _ _ (by simpa using hgiven)]
    rfl
  · next hgiven =>
    rw [added, perform, List.rtakeWhile_concat_pos _ _ _ (by simpa using hgiven), List.filter_append,
      List.flatMap_append, List.filter_singleton, added]
    by_cases htarget : call.target = name ∧ (call.result s.scripts).isOk
    · simp [htarget]
    · simp only [decide_eq_false htarget, if_neg htarget]
      rfl

/-- There is no room for what a call offers: a command in a full script, or a script that is too long for
what is left. -/
def IsFull (s : Session ι) : Call ι → Prop
  | .push target _ => (s.scripts target).size = Limits.commands
  | .give target source _ | .copy target source =>
    Limits.commands < (s.scripts target).size + (s.scripts source).size

/-- What becomes of the scripts in a call. -/
structure Answers (s : Session ι) (call : Call ι) : Prop where
  full : s.IsFull call → call.result s.scripts = .error ⟨Limits.commands⟩ ∧
    (s.perform call).scripts call.target = s.scripts call.target
  room : ¬s.IsFull call → (call.result s.scripts).isOk ∧
    ((s.perform call).scripts call.target).toList = (s.scripts call.target).toList ++ call.offered s.scripts
  others : ∀ name, name ≠ call.target → call.given? ≠ some name →
    (s.perform call).scripts name = s.scripts name

/-! ### Many calls -/

/-- Each script is what the successful calls have added to it, and fits into the limit. -/
structure IsBoundedLog (s : Session ι) : Prop where
  contents : ∀ name, (s.scripts name).toList = added name s.entries
  bounded : ∀ name, (s.scripts name).size ≤ Limits.commands

theorem isBoundedLog_empty : (empty : Session ι).IsBoundedLog :=
  ⟨fun _ => rfl, fun _ => Nat.zero_le _⟩

theorem IsBoundedLog.isFull_iff (h : s.IsBoundedLog) (call : Call ι) : s.IsFull call ↔
    Limits.commands < (s.scripts call.target).size + (call.offered s.scripts).length := by
  cases call with
  | push target command =>
    have hbounded := h.bounded target
    simp only [IsFull, Call.target, Call.offered, List.length_singleton]
    omega
  | give | copy => simp only [IsFull, Call.target, Call.offered, length_toList]

theorem IsBoundedLog.answers (h : s.IsBoundedLog) (call : Call ι) : s.Answers call := by
  apply Answers.mk
  · intro hfull
    have herror := result_eq_error_iff.2 ⟨rfl, (h.isFull_iff call).1 hfull⟩
    refine ⟨herror, ?_⟩
    rw [scripts_perform_of_error herror]
    exact s.kept_target call
  · intro hroom
    rw [h.isFull_iff] at hroom
    obtain ⟨script, hok⟩ := exists_result (Nat.le_of_not_lt hroom)
    rw [scripts_perform_of_ok hok, hok]
    exact ⟨rfl, (result_eq_ok_iff.1 hok).2⟩
  · intro name hname hgiven
    rw [scripts_perform_of_ne hname]
    exact if_neg hgiven

theorem IsBoundedLog.perform (h : s.IsBoundedLog) (call : Call ι) : (s.perform call).IsBoundedLog := by
  have hother (name : ι) (hname : name ≠ call.target) : ((s.perform call).scripts name).toList =
        added name (s.perform call).entries ∧ ((s.perform call).scripts name).size ≤ Limits.commands := by
    rw [scripts_perform_of_ne hname, added_perform, kept]
    split
    · exact ⟨rfl, Nat.zero_le _⟩
    · rw [if_neg fun hc => hname hc.1.symm, List.append_nil]
      exact ⟨h.contents name, h.bounded name⟩
  have htarget : ((s.perform call).scripts call.target).toList =
        added call.target (s.perform call).entries ∧
      ((s.perform call).scripts call.target).size ≤ Limits.commands := by
    rw [added_perform, if_neg call.given?_ne_target]
    cases hresult : call.result s.scripts with
    | ok script =>
      obtain ⟨hroom, hscript⟩ := result_eq_ok_iff.1 hresult
      rw [scripts_perform_of_ok hresult, if_pos ⟨rfl, rfl⟩, ← h.contents, ← length_toList, hscript,
        List.length_append, length_toList]
      exact ⟨rfl, hroom⟩
    | error e =>
      rw [scripts_perform_of_error hresult, s.kept_target, if_neg (fun hc => nomatch hc.2), List.append_nil]
      exact ⟨h.contents _, h.bounded _⟩
  apply IsBoundedLog.mk
  · intro name
    by_cases hname : name = call.target
    · exact hname ▸ htarget.1
    · exact (hother name hname).1
  · intro name
    by_cases hname : name = call.target
    · exact hname ▸ htarget.2
    · exact (hother name hname).2

theorem isBoundedLog_run (calls : List (Call ι)) : (run calls).IsBoundedLog := by
  induction calls using List.reverseRecOn with
  | nil => exact isBoundedLog_empty
  | append_singleton calls call ih =>
    rw [run_concat]
    exact ih.perform call

/-- The entries are the calls in order. -/
theorem entries_run (calls : List (Call ι)) : (run calls).entries.map (·.call) = calls := by
  induction calls using List.reverseRecOn with
  | nil => rfl
  | append_singleton calls call ih =>
    rw [run_concat, Session.perform, List.map_append, ih]
    rfl

/-- Whatever the calls, each script is what those on it that succeeded have added, in order, and never longer
than the limit; and the next call fails exactly if there is no room for all that it offers, and then leaves
its target as it was. -/
theorem scripts_bounded_logs (calls : List (Call ι)) : (run calls).entries.map (·.call) = calls ∧
    (run calls).IsBoundedLog ∧ ∀ call, (run calls).Answers call :=
  ⟨entries_run calls, isBoundedLog_run calls, (isBoundedLog_run calls).answers⟩

end Session

end Script

end ManagementScript
