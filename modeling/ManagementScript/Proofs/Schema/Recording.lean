import ManagementScript.Proofs.Schema.Cardinality

/-!
Sets of elements behind any number of calls. An element is in a set exactly if it was there at the beginning
or one of the calls has recorded it. A call is refused for what it finds in the set, and it changes nothing
about other elements than its own.
-/

namespace ManagementScript

namespace ElementSet

/-! ### One call -/

variable {s t : ElementSet} {a b : ElementName} {group : List ElementName} {position : Position}
  {e : CompilationError}

theorem contains_insert_iff :
    (s.insert a).contains b = true ↔ s.contains b = true ∨ a = b := by
  rw [contains_insert, Bool.or_eq_true, decide_eq_true_iff]

/-- What is in a set has its bit already. -/
theorem insert_of_contains (h : s.contains a = true) : s.insert a = s := by
  rw [contains_eq_testBit] at h
  apply congrArg ElementSet.mk
  apply UInt64.toNat_inj.1
  apply Nat.eq_of_testBit_eq
  intro i
  rw [UInt64.toNat_or, Nat.testBit_or, testBit_bitOf]
  by_cases hi : a.index = i
  · rw [← hi, h, Bool.true_or]
  · rw [decide_eq_false hi, Bool.or_false]

/-- A call that records an element. -/
inductive Call where
  | insert (element : ElementName)
  | requireOnce (element : ElementName) (position : Position)
  | requireExclusive (element : ElementName) (group : List ElementName) (position : Position)

namespace Call

def element : Call → ElementName
  | insert element | requireOnce element _ | requireExclusive element .. => element

/-- What a call makes of a set. -/
def result (s : ElementSet) : Call → Except CompilationError ElementSet
  | insert element => .ok (s.insert element)
  | requireOnce element position => s.requireOnce element position
  | requireExclusive element group position => s.requireExclusive element group position

/-- Whether a call records an element in the set it finds. One that demands an element once does so in any
case, and one that demands it alone if it succeeds. -/
def Records (call : Call) (s : ElementSet) (element : ElementName) : Prop :=
  match call with
  | insert recorded | requireOnce recorded _ => recorded = element
  | requireExclusive recorded group position =>
    recorded = element ∧ ∃ t, s.requireExclusive recorded group position = .ok t

theorem Records.element_eq {call : Call} (h : call.Records s b) : call.element = b := by
  cases call with
  | insert | requireOnce => exact h
  | requireExclusive => exact h.1

end Call

/-- The set behind a call. A call that is refused leaves it. -/
def perform (s : ElementSet) (call : Call) : ElementSet :=
  match call.result s with
  | .ok t => t
  | .error _ => s

variable {call : Call}

theorem perform_of_error (h : call.result s = .error e) : s.perform call = s := by
  rw [perform, h]

/-- An element that is demanded once is in the set afterwards, whether or not it was before. -/
theorem perform_requireOnce (s : ElementSet) (a : ElementName) (position : Position) :
    s.perform (.requireOnce a position) = s.insert a := by
  rw [perform, Call.result]
  cases h : s.contains a with
  | false => rw [requireOnce_eq_ok_iff.2 ⟨h, rfl⟩]
  | true => rw [requireOnce_eq_error_iff.2 ⟨h, rfl⟩, insert_of_contains h]

theorem contains_perform_iff :
    (s.perform call).contains b = true ↔ s.contains b = true ∨ call.Records s b := by
  cases call with
  | insert a => exact contains_insert_iff
  | requireOnce a position =>
    rw [perform_requireOnce]
    exact contains_insert_iff
  | requireExclusive a group position =>
    simp only [perform, Call.result, Call.Records]
    cases h : s.requireExclusive a group position with
    | ok t =>
      obtain ⟨-, rfl⟩ := requireExclusive_eq_ok_iff.1 h
      simp [contains_insert_iff]
    | error e => simp

/-- What a set answers to a call, and what it keeps. -/
structure Answers (s : ElementSet) : Prop where
  once : ∀ element position e, s.requireOnce element position = .error e ↔
    s.contains element = true ∧ e = .duplicateElement element.localName position
  exclusive : ∀ element group position e, s.requireExclusive element group position = .error e ↔
    (∃ member ∈ group, s.contains member = true) ∧
      e = .exclusiveViolation element.localName (group.map (·.localName)) position
  refused : ∀ (call : Call) e, call.result s = .error e → s.perform call = s
  again : ∀ element, s.contains element = true → s.insert element = s
  others : ∀ (call : Call) other, other ≠ call.element →
    (s.perform call).contains other = s.contains other

theorem answers (s : ElementSet) : s.Answers where
  once _ _ _ := requireOnce_eq_error_iff
  exclusive _ _ _ _ := by rw [requireExclusive_eq_error_iff, intersects_ofList_iff]
  refused _ _ := perform_of_error
  again _ := insert_of_contains
  others call other hne := by
    rw [Bool.eq_iff_iff, contains_perform_iff]
    exact or_iff_left fun h => hne h.element_eq.symm

/-! ### Many calls -/

/-- The set of the given elements behind all calls. -/
def run (initial : List ElementName) (calls : List Call) : ElementSet :=
  calls.foldl perform (ofList initial)

theorem run_concat (initial : List ElementName) (calls : List Call) (call : Call) :
    run initial (calls ++ [call]) = (run initial calls).perform call := by
  rw [run, List.foldl_append]
  rfl

/-- One of the calls has recorded the element, in the set that those before it have left. -/
def Recorded (initial : List ElementName) (calls : List Call) (element : ElementName) : Prop :=
  ∃ before call after, calls = before ++ call :: after ∧ call.Records (run initial before) element

theorem recorded_nil : ¬Recorded initial [] a := by
  rintro ⟨before, call, after, h, -⟩
  cases before <;> cases h

theorem recorded_concat_iff {initial : List ElementName} {calls : List Call} :
    Recorded initial (calls ++ [call]) a ↔
      Recorded initial calls a ∨ call.Records (run initial calls) a := by
  apply Iff.intro
  · rintro ⟨before, found, after, h, hrecords⟩
    cases after using List.reverseRecOn with
    | nil =>
      obtain ⟨rfl, hlast⟩ := List.append_inj' h rfl
      obtain rfl := List.singleton_inj.1 hlast
      exact .inr hrecords
    | append_singleton after last =>
      rw [← List.cons_append, ← List.append_assoc] at h
      obtain ⟨rfl, -⟩ := List.append_inj' h rfl
      exact .inl ⟨before, found, after, rfl, hrecords⟩
  · rintro (⟨before, found, after, rfl, hrecords⟩ | hrecords)
    · exact ⟨before, found, after ++ [call], by simp, hrecords⟩
    · exact ⟨calls, call, [], rfl, hrecords⟩

theorem contains_run_iff {initial : List ElementName} {calls : List Call} :
    (run initial calls).contains a = true ↔ a ∈ initial ∨ Recorded initial calls a := by
  induction calls using List.reverseRecOn with
  | nil =>
    rw [run, List.foldl_nil, contains_ofList, decide_eq_true_iff]
    exact (or_iff_left recorded_nil).symm
  | append_singleton calls call ih => rw [run_concat, contains_perform_iff, ih, recorded_concat_iff, or_assoc]

/-- Whatever is recorded, and in whatever order: an element is in the set exactly if it was from the beginning
or a call before has recorded it, an element is refused as a duplicate exactly if it is there, and as one of a
group that exclude each other exactly if one of the group is, the whole of which is named then. A call that is
refused changes nothing, and no call changes anything about other elements, each of which has a bit of the
word. -/
theorem recorded_elements_kept (initial : List ElementName) (calls : List Call) :
    (∀ element, (run initial calls).contains element = true ↔
      element ∈ initial ∨ Recorded initial calls element) ∧
    (run initial calls).Answers ∧
    ∀ element : ElementName, element.index < 64 :=
  ⟨fun _ => contains_run_iff, answers _, ElementName.index_lt⟩

end ElementSet

end ManagementScript
