import ManagementScript.Proofs.Compilation.Management

/-!
What compilations of management elements do to a script that has commands already: each of them adds
all commands of its element or none, so that a script is made up of what its elements give alone.
-/

namespace ManagementScript.Compilation

variable {δ α β : Type}

/-- The script stays as it is, after an error too. -/
def KeepsScript (m : Compilation δ α) : Prop := ∀ s, (m s).2.script = s.script

/-- An error leaves the script as it is, and otherwise commands are only added at its end. -/
def Atomic (m : Compilation δ α) : Prop :=
  ∀ s, match m s with
    | (.ok _, s') => s.script.toList <+: s'.script.toList
    | (.error _, s') => s'.script = s.script

theorem keepsScript_throw (e : CompilationError) : KeepsScript (throw e : Compilation δ α) :=
  fun _ => rfl

theorem keepsScript_location : KeepsScript (location : Compilation δ Position) := fun _ => rfl

theorem keepsScript_emit (event : LogEvent) : KeepsScript (emit event : Compilation δ Unit) :=
  fun _ => rfl

theorem keepsScript_requireNoAttributes :
    KeepsScript (requireNoAttributes : Compilation δ Unit) := by
  intro s
  rw [requireNoAttributes, getCursor_bind]
  cases s.cursor.attributes with
  | nil => rfl
  | cons => rfl

theorem keepsScript_isolated (inner : Compilation δ α) : KeepsScript (isolated inner) := by
  intro s
  simp only [isolated]
  split
  · rfl
  · rfl

theorem KeepsScript.bind_atomic {m : Compilation δ α} {f : α → Compilation δ β} (h : KeepsScript m)
    (hf : ∀ a, Atomic (f a)) : Atomic (m >>= f) := by
  intro s
  have hm := h s
  rw [bind_apply]
  cases hs : m s with
  | mk result s₁ =>
    rw [hs] at hm
    simp only at hm
    cases result with
    | ok a =>
      have ha := hf a s₁
      rw [hm] at ha
      exact ha
    | error e => exact hm

/-- Nothing fails behind the commands that are added. -/
theorem atomic_extend_succeed (commands : Script) (code : Code) (message : String)
    (facts : List (String × String)) :
    Atomic (do extend commands; succeed code message facts : Compilation δ Unit) := by
  intro s
  rw [bind_apply]
  cases hs : extend commands s with
  | mk result s₁ =>
    cases result with
    | ok u => exact ⟨_, (extend_eq_ok.1 hs).2.script.toList.symm⟩
    | error e =>
      simp only [extend] at hs
      split at hs
      · cases hs
      · cases hs
        rfl

theorem atomic_management (grammar : GrammarNamespace) (delegate : Delegate δ) (base : Address)
    (native : Bool) : Atomic (management grammar delegate base native) := by
  apply keepsScript_requireNoAttributes.bind_atomic
  intro _
  apply (keepsScript_emit _).bind_atomic
  intro _
  apply (keepsScript_isolated _).bind_atomic
  intro ⟨seen, commands⟩
  have hadd := atomic_extend_succeed (δ := δ) commands .managementCompiled
    "Management element translated" [("namespace", grammar.uri), ("operations", toString commands.size)]
  simp only
  split
  · apply keepsScript_location.bind_atomic
    intro p
    exact (keepsScript_throw _).bind_atomic fun _ => hadd
  · exact hadd

/-! ### One element after the other -/

/-- A management element to compile: where the cursor stands on it, and what it is compiled with. -/
structure Request where
  cursor : Cursor
  base : Address
  nativeInterface : Bool

/-- What is left of a compilation. -/
abbrev Outcome := Except CompilationError Unit × CompilationState Unit

namespace Request

variable (grammar : GrammarNamespace)

/-- Compiles the element behind the commands and the events that are there. -/
def run (r : Request) (s : CompilationState Unit) : Outcome :=
  management grammar .declining r.base r.nativeInterface { s with cursor := r.cursor }

/-- Compiles the element into an empty script. -/
def alone (r : Request) : Outcome := r.run grammar ⟨r.cursor, .empty, (), #[]⟩

/-- Compiles elements one after the other, whether they are valid or not. -/
def runAll (s : CompilationState Unit) :
    List Request → List (Except CompilationError Unit) × CompilationState Unit
  | [] => ([], s)
  | r :: rs =>
    let (result, s) := r.run grammar s
    let (results, s) := runAll s rs
    (result :: results, s)

/-- The requests whose results are successes. -/
def succeeded : List Request → List (Except CompilationError Unit) → List Request
  | r :: rs, .ok _ :: results => r :: succeeded rs results
  | _ :: rs, .error _ :: results => succeeded rs results
  | _, _ => []

variable {grammar}

theorem run_eq_ok_iff {r : Request} {s s' : CompilationState Unit} :
    r.run grammar s = (.ok (), s') ↔ ∃ e d, r.cursor.Spans e d ∧ e.IsManagement grammar ∧
      r.nativeInterface = false ∧ s.script.size + (e.commands r.base).length ≤ Limits.commands ∧
      CompilationState.After { s with cursor := r.cursor } d
        ⟨e.commands r.base, managementReports grammar r.base e⟩ s' :=
  management_eq_ok_iff

/-- A success does not depend on what is there. -/
theorem alone_of_run {r : Request} {s s' : CompilationState Unit}
    (h : r.run grammar s = (.ok (), s')) :
    ∃ t, r.alone grammar = (.ok (), t) ∧ s'.script.toList = s.script.toList ++ t.script.toList := by
  obtain ⟨e, d, hd, ha, hnative, _, hs⟩ := run_eq_ok_iff.1 h
  have hroom : Script.empty.size + (e.commands r.base).length ≤ Limits.commands := by
    rw [show Script.empty.size = 0 from rfl, Nat.zero_add]
    exact hs.fits
  obtain ⟨t, ht⟩ := CompilationState.exists_after (s := ⟨r.cursor, .empty, (), #[]⟩)
    (fun _ => hroom) d (managementReports grammar r.base e)
  refine ⟨t, run_eq_ok_iff.2 ⟨e, d, hd, ha, hnative, hroom, ht⟩, ?_⟩
  rw [hs.script.toList, ht.script.toList]
  rfl

/-- An element that is valid alone is compiled wherever there is room for its commands. -/
theorem run_of_alone {r : Request} {t : CompilationState Unit} (h : r.alone grammar = (.ok (), t))
    (s : CompilationState Unit) :
    (r.run grammar s).1 = if s.script.size + t.script.size ≤ Limits.commands then .ok ()
      else .error (.limitExceeded CompilationError.commandList Limits.commands) := by
  obtain ⟨e, d, hd, ha, hnative, hfit, ht⟩ := run_eq_ok_iff.1 h
  have hsize : t.script.size = (e.commands r.base).length := by
    rw [ht.script.size]
    exact Nat.zero_add _
  rw [hsize]
  split
  · next hroom =>
    obtain ⟨s', hs⟩ := CompilationState.exists_after (s := { s with cursor := r.cursor })
      (fun _ => hroom) d (managementReports grammar r.base e)
    rw [run_eq_ok_iff.2 ⟨e, d, hd, ha, hnative, hroom, hs⟩]
  · next hfull =>
    rw [run, hnative]
    exact management_eq_limitExceeded hd ha ht.fits (Nat.not_le.1 hfull)

theorem run_of_alone_error {r : Request} {t : CompilationState Unit}
    (h : r.alone grammar = (.error e, t)) (s : CompilationState Unit) :
    ∃ e', (r.run grammar s).1 = .error e' := by
  cases hr : r.run grammar s with
  | mk result s' =>
    cases result with
    | error e' => exact ⟨e', rfl⟩
    | ok u =>
      obtain ⟨t', ht, _⟩ := alone_of_run hr
      rw [h] at ht
      cases ht

/-- The elements that are compiled add what they are alone, and the others nothing. -/
theorem runAll_toList (requests : List Request) (s : CompilationState Unit) :
    (runAll grammar s requests).2.script.toList = s.script.toList ++
      (succeeded requests (runAll grammar s requests).1).flatMap fun r =>
        (r.alone grammar).2.script.toList := by
  induction requests generalizing s with
  | nil => exact (List.append_nil _).symm
  | cons r rs ih =>
    cases hr : r.run grammar s with
    | mk result s₁ =>
      have hrs := ih s₁
      simp only [runAll, hr]
      cases result with
      | ok u =>
        obtain ⟨t, ht, hs₁⟩ := alone_of_run hr
        rw [hrs, hs₁, succeeded, List.flatMap_cons, ht, List.append_assoc]
      | error e =>
        have hkeep := atomic_management grammar .declining r.base r.nativeInterface
          { s with cursor := r.cursor }
        rw [← run, hr] at hkeep
        rw [hrs, hkeep, succeeded]

theorem alone_of_mem_succeeded {requests : List Request} {s : CompilationState Unit}
    (h : r ∈ succeeded requests (runAll grammar s requests).1) : (r.alone grammar).1 = .ok () := by
  induction requests generalizing s with
  | nil => cases h
  | cons r' rs ih =>
    cases hr : r'.run grammar s with
    | mk result s₁ =>
      simp only [runAll, hr] at h
      cases result with
      | ok u =>
        rw [succeeded] at h
        cases h with
        | head =>
          obtain ⟨t, ht, _⟩ := alone_of_run hr
          rw [ht]
        | tail _ h => exact ih h
      | error e =>
        rw [succeeded] at h
        exact ih h

end Request

/-- With any delegate the commands of an element are added together or not at all, behind those that
are there. Elements compiled one after the other add, in order, what those of them that succeed give
alone; and one that is valid alone fails only where there is no room for its commands. -/
theorem management_append_only (grammar : GrammarNamespace) :
    (∀ {δ : Type} (delegate : Delegate δ) (base : Address) (native : Bool),
      Atomic (management grammar delegate base native)) ∧
    (∀ (requests : List Request) (s : CompilationState Unit),
      let (results, s') := Request.runAll grammar s requests
      let succeeded := Request.succeeded requests results
      s'.script.toList =
          s.script.toList ++ succeeded.flatMap (fun r => (r.alone grammar).2.script.toList) ∧
        ∀ r ∈ succeeded, (r.alone grammar).1 = .ok ()) ∧
    ∀ (r : Request) (s : CompilationState Unit),
      match r.alone grammar with
      | (.ok _, t) =>
        (r.run grammar s).1 = if s.script.size + t.script.size ≤ 50000 then .ok ()
          else .error (.limitExceeded CompilationError.commandList 50000)
      | (.error _, _) => ∃ e, (r.run grammar s).1 = .error e := by
  refine ⟨fun delegate base native => atomic_management grammar delegate base native, ?_, ?_⟩
  · intro requests s
    exact ⟨Request.runAll_toList requests s, fun r => Request.alone_of_mem_succeeded⟩
  · intro r s
    cases h : r.alone grammar with
    | mk result t =>
      cases result with
      | ok u => exact Request.run_of_alone h s
      | error e => exact Request.run_of_alone_error h s

end ManagementScript.Compilation
