import ManagementScript.Compilation.Basic
import ManagementScript.Proofs.Result

/-!
What a compilation adds to its state: commands at the end of the script and events at the end of the
log. The delegate keeps its state in everything that is compiled here.
-/

namespace ManagementScript

/-- Commands and events in the order in which they are added. -/
structure Output where
  commands : List Command
  events : List LogEvent

namespace Output

def nil : Output := ⟨[], []⟩

def append (o o' : Output) : Output := ⟨o.commands ++ o'.commands, o.events ++ o'.events⟩

instance : Append Output := ⟨append⟩

def ofCommands (commands : List Command) : Output := ⟨commands, []⟩

@[simp] theorem commands_nil : nil.commands = [] := rfl

@[simp] theorem events_nil : nil.events = [] := rfl

@[simp] theorem commands_append (o o' : Output) : (o ++ o').commands = o.commands ++ o'.commands := rfl

@[simp] theorem events_append (o o' : Output) : (o ++ o').events = o.events ++ o'.events := rfl

@[simp] theorem nil_append (o : Output) : nil ++ o = o := rfl

theorem ext {o o' : Output} (hc : o.commands = o'.commands) (he : o.events = o'.events) : o = o' := by
  cases o
  cases o'
  simp only at hc he
  rw [hc, he]

@[simp] theorem append_nil (o : Output) : o ++ nil = o :=
  ext (List.append_nil _) (List.append_nil _)

@[simp] theorem ofCommands_append (cs cs' : List Command) :
    ofCommands cs ++ ofCommands cs' = ofCommands (cs ++ cs') := rfl

def concat (os : List Output) : Output := ⟨os.flatMap (·.commands), os.flatMap (·.events)⟩

@[simp] theorem concat_nil : concat [] = nil := rfl

@[simp] theorem concat_cons (o : Output) (os : List Output) : concat (o :: os) = o ++ concat os := rfl

theorem concat_nils (xs : List α) : concat (xs.map fun _ => nil) = nil := by
  induction xs with
  | nil => rfl
  | cons x xs ih => rw [List.map_cons, concat_cons, ih, nil_append]

theorem concat_ofCommands (f : α → List Command) (xs : List α) :
    concat (xs.map fun x => ofCommands (f x)) = ofCommands (xs.flatMap f) := by
  induction xs with
  | nil => rfl
  | cons x xs ih => rw [List.map_cons, concat_cons, ih, ofCommands_append, List.flatMap_cons]

theorem concat_mk (f : α → List Command) (g : α → List LogEvent) (xs : List α) :
    concat (xs.map fun x => ⟨f x, g x⟩) = ⟨xs.flatMap f, xs.flatMap g⟩ :=
  ext (List.flatMap_map ..) (List.flatMap_map ..)

theorem concat_reports (f : α → List Command) (g : α → LogEvent) (xs : List α) :
    concat (xs.map fun x => ⟨f x, [g x]⟩) = ⟨xs.flatMap f, xs.map g⟩ := by
  induction xs with
  | nil => rfl
  | cons x xs ih =>
    rw [List.map_cons, concat_cons, ih, List.flatMap_cons]
    rfl

/-- No more commands than an empty script has room for. -/
def Fits (o : Output) : Prop := o.commands.length ≤ Limits.commands

end Output

namespace Script

/-- The commands are at the end of `t`, behind those of `s`, and there was room for each of them. -/
structure Grows (s : Script) (commands : List Command) (t : Script) : Prop where
  toList : t.toList = s.toList ++ commands
  room : commands ≠ [] → t.size ≤ Limits.commands

def ofList (commands : List Command) : Script := ⟨commands.toArray⟩

@[simp] theorem toList_ofList (commands : List Command) : (ofList commands).toList = commands := rfl

theorem size_eq (s : Script) : s.size = s.toList.length := rfl

theorem ext_toList {s t : Script} (h : s.toList = t.toList) : s = t := by
  cases s
  cases t
  exact congrArg Script.mk (Array.toList_inj.1 h)

theorem Grows.unique {s t t' : Script} (h : s.Grows cs t) (h' : s.Grows cs t') : t = t' :=
  ext_toList (h.toList.trans h'.toList.symm)

theorem grows_nil_iff {s t : Script} : s.Grows [] t ↔ t = s := by
  apply Iff.intro
  · intro h
    exact ext_toList (by simpa using h.toList)
  · intro h
    subst h
    exact ⟨by simp, fun h => absurd rfl h⟩

theorem Grows.size {s t : Script} (h : s.Grows cs t) : t.size = s.size + cs.length := by
  rw [size_eq, h.toList, List.length_append, ← size_eq]

theorem Grows.length_le {s t : Script} (h : s.Grows cs t) : cs.length ≤ Limits.commands := by
  cases cs with
  | nil => exact Nat.zero_le _
  | cons c cs =>
    have := h.room (by simp)
    have := h.size
    omega

theorem grows_append_iff {s u : Script} :
    s.Grows (cs ++ cs') u ↔ ∃ t, s.Grows cs t ∧ t.Grows cs' u := by
  apply Iff.intro
  · intro h
    have hu := h.size
    rw [List.length_append] at hu
    let t : Script := ⟨s.commands ++ cs.toArray⟩
    have ht : t.toList = s.toList ++ cs := by simp [t, toList]
    have hsize : t.size = s.size + cs.length := by simp [size_eq, ht]
    refine ⟨t, ⟨ht, fun hne => ?_⟩, ⟨by rw [h.toList, ht, List.append_assoc], fun hne => ?_⟩⟩
    · have := h.room (by simp [hne])
      omega
    · exact h.room (by simp [hne])
  · intro h
    obtain ⟨t, h, h'⟩ := h
    refine ⟨by rw [h'.toList, h.toList, List.append_assoc], fun hne => ?_⟩
    by_cases he : cs' = []
    · subst he
      rw [grows_nil_iff.1 h']
      exact h.room (by simpa using hne)
    · exact h'.room he

theorem push_eq_ok_iff_grows {s t : Script} : s.push c = .ok t ↔ s.Grows [c] t := by
  rw [push_eq_ok_iff]
  apply Iff.intro
  · intro h
    obtain ⟨hlt, ht⟩ := h
    exact ⟨ht, fun _ => by simpa [size_eq, ht] using Nat.succ_le_of_lt hlt⟩
  · intro h
    have := h.room (by simp)
    have hsize := h.size
    rw [List.length_singleton] at hsize
    exact ⟨by omega, h.toList⟩

end Script

namespace CompilationState

variable {δ : Type}

/-- The state `s'` is `s` with the cursor at `c` and the output `o` added. -/
structure After (s : CompilationState δ) (c : Cursor) (o : Output) (s' : CompilationState δ) : Prop where
  cursor : s'.cursor = c
  script : s.script.Grows o.commands s'.script
  delegate : s'.delegate = s.delegate
  events : s'.events.toList = s.events.toList ++ o.events

theorem After.unique {s s₁ s₂ : CompilationState δ} (h₁ : s.After c o s₁) (h₂ : s.After c o s₂) :
    s₁ = s₂ := by
  cases s₁
  cases s₂
  obtain ⟨hc₁, hs₁, hd₁, he₁⟩ := h₁
  obtain ⟨hc₂, hs₂, hd₂, he₂⟩ := h₂
  simp only at hc₁ hc₂ hd₁ hd₂
  congr 1
  · rw [hc₁, hc₂]
  · exact hs₁.unique hs₂
  · rw [hd₁, hd₂]
  · exact Array.toList_inj.1 (he₁.trans he₂.symm)

theorem after_nil_iff {s s' : CompilationState δ} :
    s.After c .nil s' ↔ s' = { s with cursor := c } := by
  have hmoved : s.After c .nil { s with cursor := c } :=
    ⟨rfl, Script.grows_nil_iff.2 rfl, rfl, by simp⟩
  apply Iff.intro
  · intro h
    exact h.unique hmoved
  · intro h
    subst h
    exact hmoved

theorem after_self_iff {s s' : CompilationState δ} : s.After s.cursor .nil s' ↔ s' = s :=
  after_nil_iff

/-- What is added does not depend on where the cursor was before. -/
theorem After.moved {s s' : CompilationState δ} (h : s.After c o s') (i : Cursor) :
    { s with cursor := i }.After c o s' :=
  ⟨h.cursor, h.script, h.delegate, h.events⟩

theorem After.trans {s s₁ s₂ : CompilationState δ} (h₁ : s.After c₁ o₁ s₁) (h₂ : s₁.After c₂ o₂ s₂) :
    s.After c₂ (o₁ ++ o₂) s₂ where
  cursor := h₂.cursor
  script := Script.grows_append_iff.2 ⟨_, h₁.script, h₂.script⟩
  delegate := h₂.delegate.trans h₁.delegate
  events := by rw [h₂.events, h₁.events, Output.events_append, List.append_assoc]

/-- The state between two parts of an output, with the cursor wherever it was then. -/
theorem After.between {s s₂ : CompilationState δ} (h : s.After c₂ (o₁ ++ o₂) s₂) (c₁ : Cursor) :
    ∃ s₁, s.After c₁ o₁ s₁ ∧ s₁.After c₂ o₂ s₂ := by
  obtain ⟨t, ht, ht'⟩ := Script.grows_append_iff.1 h.script
  refine ⟨⟨c₁, t, s.delegate, s.events ++ o₁.events.toArray⟩, ⟨rfl, ht, rfl, by simp⟩,
    ⟨h.cursor, ht', h.delegate, ?_⟩⟩
  rw [h.events, Output.events_append]
  simp

/-- Where there is room for commands they can be added. -/
theorem exists_after {s : CompilationState δ}
    (h : commands ≠ [] → s.script.size + commands.length ≤ Limits.commands) (c : Cursor)
    (events : List LogEvent) : ∃ s', s.After c ⟨commands, events⟩ s' := by
  let t : Script := ⟨s.script.commands ++ commands.toArray⟩
  have ht : t.toList = s.script.toList ++ commands := by simp [t, Script.toList]
  refine ⟨⟨c, t, s.delegate, s.events ++ events.toArray⟩, rfl, ⟨ht, fun hne => ?_⟩, rfl, by simp⟩
  rw [Script.size_eq, ht, List.length_append]
  exact h hne

theorem After.fits {s s' : CompilationState δ} (h : s.After c o s') : o.Fits := h.script.length_le

end CompilationState

namespace Compilation

variable {δ α β : Type}

theorem bind_apply (m : Compilation δ α) (f : α → Compilation δ β) (s : CompilationState δ) :
    (m >>= f) s = (match m s with
      | (.ok a, s₁) => f a s₁
      | (.error e, s₁) => (.error e, s₁) : Except CompilationError β × CompilationState δ) := by
  rw [stateful_bind_apply]
  cases m s with
  | mk result s₁ => cases result <;> rfl

theorem bind_eq_ok {m : Compilation δ α} {f : α → Compilation δ β} {s s' : CompilationState δ} :
    (m >>= f) s = (.ok b, s') ↔ ∃ a s₁, m s = (.ok a, s₁) ∧ f a s₁ = (.ok b, s') :=
  stateful_bind_eq_ok

theorem pure_eq_ok {a b : α} {s s' : CompilationState δ} :
    (pure a : Compilation δ α) s = (.ok b, s') ↔ b = a ∧ s' = s := by
  apply Iff.intro
  · intro h
    cases h
    exact ⟨rfl, rfl⟩
  · intro h
    obtain ⟨rfl, rfl⟩ := h
    rfl

theorem throw_ne_ok {e : CompilationError} {s s' : CompilationState δ} :
    (throw e : Compilation δ α) s ≠ (.ok a, s') := by
  intro h
  cases h

theorem check_eq_ok {result : Except CompilationError α} {s s' : CompilationState δ} :
    check result s = (.ok a, s') ↔ result = .ok a ∧ s' = s := by
  apply Iff.intro
  · intro h
    cases h
    exact ⟨rfl, rfl⟩
  · intro h
    obtain ⟨rfl, rfl⟩ := h
    rfl

theorem getCursor_bind (f : Cursor → Compilation δ β) (s : CompilationState δ) :
    (getCursor >>= f) s = f s.cursor s := rfl

theorem location_bind (f : Position → Compilation δ β) (s : CompilationState δ) :
    (location >>= f) s = f s.cursor.position s := rfl

theorem emit_bind {g : Unit → Compilation δ β} {event : LogEvent} {s : CompilationState δ} :
    (emit event >>= g) s = g () { s with events := s.events.push event } := rfl

theorem move_eq_ok {step : Cursor → Cursor.Moved α} {s s' : CompilationState δ} :
    move step s = (.ok a, s') ↔ ∃ c, step s.cursor = (.ok a, c) ∧ s.After c .nil s' := by
  simp only [move, CompilationState.after_nil_iff]
  apply Iff.intro
  · intro h
    split at h
    · next hs =>
      cases h
      exact ⟨_, hs, rfl⟩
    · cases h
  · intro h
    obtain ⟨c, hs, rfl⟩ := h
    rw [hs]

theorem push_eq_ok {s s' : CompilationState δ} :
    push c s = (.ok u, s') ↔ s.After s.cursor (.ofCommands [c]) s' := by
  apply Iff.intro
  · intro h
    simp only [push] at h
    split at h
    · next hp =>
      cases h
      exact ⟨rfl, Script.push_eq_ok_iff_grows.1 hp, rfl, by simp [Output.ofCommands]⟩
    · cases h
  · intro h
    obtain ⟨hc, hs, hd, he⟩ := h
    obtain ⟨cursor, script, delegate, events⟩ := s'
    simp only [push, Script.push_eq_ok_iff_grows.2 hs]
    simp only [Output.ofCommands, List.append_nil] at hc hd he
    rw [hc, hd, Array.toList_inj.1 he]

/-- Commands are added together where all of them have room. -/
theorem extend_eq_ok {s s' : CompilationState δ} : extend t s = (.ok u, s') ↔
    s.script.size + t.size ≤ Limits.commands ∧ s.After s.cursor (.ofCommands t.toList) s' := by
  apply Iff.intro
  · intro h
    simp only [extend] at h
    split at h
    · next he =>
      cases h
      obtain ⟨hroom, ht⟩ := Script.extend_eq_ok_iff.1 he
      refine ⟨hroom, rfl, ⟨ht, fun _ => ?_⟩, rfl, by simp [Output.ofCommands]⟩
      simpa [Script.size_eq, ht] using hroom
    · cases h
  · intro h
    obtain ⟨hroom, hc, hs, hd, he⟩ := h
    obtain ⟨cursor, script, delegate, events⟩ := s'
    simp only [extend, Script.extend_eq_ok_iff.2 ⟨hroom, hs.toList⟩]
    simp only [Output.ofCommands, List.append_nil] at hc hd he
    rw [hc, hd, Array.toList_inj.1 he]

theorem extend_of_full {s : CompilationState δ} (h : Limits.commands < s.script.size + t.size) :
    extend t s = (.error (.limitExceeded CompilationError.commandList Limits.commands), s) := by
  simp only [extend, Script.extend, if_pos h]
  rfl

theorem emit_eq_ok {s s' : CompilationState δ} :
    emit e s = (.ok u, s') ↔ s.After s.cursor ⟨[], [e]⟩ s' := by
  apply Iff.intro
  · intro h
    cases h
    exact ⟨rfl, Script.grows_nil_iff.2 rfl, rfl, by simp⟩
  · intro h
    obtain ⟨hc, hs, hd, he⟩ := h
    obtain ⟨cursor, script, delegate, events⟩ := s'
    simp only [Script.grows_nil_iff] at hc hs hd he
    rw [hc, hs, hd, Array.toList_inj.1 (he.trans Array.toList_push.symm)]
    rfl

end Compilation

end ManagementScript
