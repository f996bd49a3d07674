import ManagementScript.Proofs.Compilation.Outcome
import ManagementScript.Proofs.Schema.Acceptance

/-!
What a compilation says about the element that the cursor is on: which trees it takes, and what it
makes of them. The rules follow the code. What comes before a computation that reads an element, or
behind it, adds a condition and an output.
-/

namespace ManagementScript.Compilation

variable {δ α β : Type}

/-- At a start tag the compilation takes the elements in `A` and no others. It moves to the end tag,
its result is `r` of the element and its output `f`. -/
def Reads (m : Compilation δ α) (A : Element → Prop) (r : Element → α) (f : Element → Output) : Prop :=
  ∀ ⦃s a s'⦄, s.cursor.Distinct → (m s = (.ok a, s') ↔
    ∃ nodes c, s.cursor.Encloses nodes c ∧ A (s.cursor.element nodes) ∧
      a = r (s.cursor.element nodes) ∧ s.After c (f (s.cursor.element nodes)) s')

/-- What is read where the start tag is one of `element`. -/
def ReadsAs (element : ElementName) (m : Compilation δ α) (A : Element → Prop) (r : Element → α)
    (f : Element → Output) : Prop :=
  ∀ ⦃s a s'⦄, s.cursor.Distinct → ElementName.ofString s.cursor.localName = element →
    (m s = (.ok a, s') ↔ ∃ nodes c, s.cursor.Encloses nodes c ∧ A (s.cursor.element nodes) ∧
      a = r (s.cursor.element nodes) ∧ s.After c (f (s.cursor.element nodes)) s')

/-- The compilation succeeds under the condition `Q`, wherever the cursor is, and does not move. -/
def Adds (m : Compilation δ α) (Q : Prop) (r : α) (o : Output) : Prop :=
  ∀ ⦃s a s'⦄, m s = (.ok a, s') ↔ Q ∧ a = r ∧ s.After s.cursor o s'

/-- The compilation takes elements without giving a result. -/
abbrev Compiles (m : Compilation δ Unit) (A : Element → Prop) (f : Element → Output) : Prop :=
  Reads m A (fun _ => ()) f

theorem enclosed_congr {s s' : CompilationState δ} {a : α} {p A A' : Element → Prop}
    {r r' : Element → α} {f f' : Element → Output} (hp : ∀ nodes, p (s.cursor.element nodes))
    (hA : ∀ e, p e → (f e).Fits → (A e ↔ A' e)) (hr : ∀ e, p e → A' e → r e = r' e)
    (hf : ∀ e, p e → A' e → f e = f' e) :
    (∃ nodes c, s.cursor.Encloses nodes c ∧ A (s.cursor.element nodes) ∧
        a = r (s.cursor.element nodes) ∧ s.After c (f (s.cursor.element nodes)) s') ↔
      ∃ nodes c, s.cursor.Encloses nodes c ∧ A' (s.cursor.element nodes) ∧
        a = r' (s.cursor.element nodes) ∧ s.After c (f' (s.cursor.element nodes)) s' := by
  apply Iff.intro
  · intro h
    obtain ⟨nodes, c, hn, ha, rfl, hs⟩ := h
    have ha' := (hA _ (hp nodes) hs.fits).1 ha
    rw [hf _ (hp nodes) ha'] at hs
    exact ⟨nodes, c, hn, ha', hr _ (hp nodes) ha', hs⟩
  · intro h
    obtain ⟨nodes, c, hn, ha', rfl, hs⟩ := h
    rw [← hf _ (hp nodes) ha'] at hs
    exact ⟨nodes, c, hn, (hA _ (hp nodes) hs.fits).2 ha', (hr _ (hp nodes) ha').symm, hs⟩

theorem Reads.congr {m : Compilation δ α} (h : Reads m A r f)
    (hA : ∀ e, (f e).Fits → (A e ↔ A' e)) (hr : ∀ e, A' e → r e = r' e)
    (hf : ∀ e, A' e → f e = f' e) : Reads m A' r' f' := by
  intro s a s' hd
  rw [h hd]
  exact enclosed_congr (p := fun _ => True) (fun _ => trivial) (fun e _ => hA e) (fun e _ => hr e)
    fun e _ => hf e

theorem Reads.anyKind {m : Compilation δ α} (h : Reads m A r f) (element : ElementName) :
    ReadsAs element m A r f :=
  fun _ _ _ hd _ => h hd

theorem ReadsAs.congr {m : Compilation δ α} (h : ReadsAs element m A r f)
    (hA : ∀ e, e.kind = element → (A e ↔ A' e)) (hr : ∀ e, e.kind = element → A' e → r e = r' e)
    (hf : ∀ e, e.kind = element → A' e → f e = f' e) : ReadsAs element m A' r' f' := by
  intro s a s' hd he
  rw [h hd he]
  exact enclosed_congr (p := fun e => e.kind = element) (fun _ => he) (fun e hk _ => hA e hk) hr hf

theorem Reads.readsAs {m : Compilation δ α} (h : Reads m A r f)
    (hA : ∀ e, e.kind = element → (A e ↔ A' e)) (hr : ∀ e, e.kind = element → A' e → r e = r' e)
    (hf : ∀ e, e.kind = element → A' e → f e = f' e) : ReadsAs element m A' r' f' :=
  (h.anyKind element).congr hA hr hf

/-! ### What does not look at the element -/

theorem adds_pure (a : α) : Adds (pure a : Compilation δ α) True a .nil := by
  intro s b s'
  rw [pure_eq_ok, CompilationState.after_self_iff, true_and]

theorem Adds.congr {m : Compilation δ α} (h : Adds m Q a o) (hq : Q ↔ Q') : Adds m Q' a o := by
  intro s b s'
  rw [h, hq]

theorem adds_throw (e : CompilationError) (hq : ¬Q) : Adds (throw e : Compilation δ α) Q a o := by
  intro s b s'
  exact ⟨fun h => absurd h throw_ne_ok, fun h => absurd h.1 hq⟩

theorem adds_check {result : Except CompilationError α}
    (h : ∀ b, result = .ok b ↔ Q ∧ b = a) : Adds (check result : Compilation δ α) Q a .nil := by
  intro s b s'
  rw [check_eq_ok, h, CompilationState.after_self_iff, and_assoc]

theorem adds_push (c : Command) :
    Adds (push c : Compilation δ Unit) True () (.ofCommands [c]) := by
  intro s u s'
  rw [push_eq_ok]
  exact ⟨fun hs => ⟨trivial, rfl, hs⟩, fun h => h.2.2⟩

theorem adds_emit (event : LogEvent) :
    Adds (emit event : Compilation δ Unit) True () ⟨[], [event]⟩ := by
  intro s u s'
  rw [emit_eq_ok]
  exact ⟨fun hs => ⟨trivial, rfl, hs⟩, fun h => h.2.2⟩

theorem adds_succeed (code : Code) (message : String) (facts : List (String × String)) :
    Adds (succeed code message facts : Compilation δ Unit) True ()
      ⟨[], [(LogEvent.success code message).withFacts facts]⟩ :=
  adds_emit _

theorem Adds.bind {m : Compilation δ α} {g : α → Compilation δ β} (h : Adds m Q a o)
    (hg : Adds (g a) Q' b o') : Adds (m >>= g) (Q ∧ Q') b (o ++ o') := by
  intro s b' s'
  rw [bind_eq_ok]
  apply Iff.intro
  · intro hm
    obtain ⟨a', s₁, hm, hn⟩ := hm
    obtain ⟨hq, rfl, hs₁⟩ := h.1 hm
    obtain ⟨hq', rfl, hs₂⟩ := hg.1 hn
    rw [hs₁.cursor] at hs₂
    exact ⟨⟨hq, hq'⟩, rfl, hs₁.trans hs₂⟩
  · intro hm
    obtain ⟨⟨hq, hq'⟩, rfl, hs⟩ := hm
    obtain ⟨s₁, hs₁, hs₂⟩ := hs.between s.cursor
    rw [← hs₁.cursor] at hs₂
    exact ⟨a, s₁, h.2 ⟨hq, rfl, hs₁⟩, hg.2 ⟨hq', rfl, hs₂⟩⟩

theorem Adds.location_bind {g : Position → Compilation δ β} (h : ∀ p, Adds (g p) Q b o) :
    Adds (location >>= g) Q b o := by
  intro s b' s'
  rw [Compilation.location_bind]
  exact @h _ s b' s'

/-- A command with others behind it, that of a resource with those below it. -/
theorem adds_push_extend (c : Command) (commands : Script) :
    Adds (push c >>= fun _ => extend commands : Compilation δ Unit) True ()
      (.ofCommands (c :: commands.toList)) := by
  intro s u s'
  rw [bind_eq_ok]
  apply Iff.intro
  · intro hm
    obtain ⟨_, s₁, hp, he⟩ := hm
    have hs₁ := push_eq_ok.1 hp
    obtain ⟨_, hs₂⟩ := extend_eq_ok.1 he
    rw [hs₁.cursor] at hs₂
    exact ⟨trivial, rfl, hs₁.trans hs₂⟩
  · intro hm
    obtain ⟨_, _, hs⟩ := hm
    have hs : s.After s.cursor (.ofCommands [c] ++ .ofCommands commands.toList) s' := hs
    obtain ⟨s₁, hs₁, hs₂⟩ := hs.between s.cursor
    rw [← hs₁.cursor] at hs₂
    have hroom : s₁.script.size + commands.size ≤ Limits.commands := by
      by_cases hc : commands.toList = []
      · rw [Script.size_eq commands, hc]
        exact hs₁.script.room (by simp [Output.ofCommands])
      · rw [Script.size_eq commands]
        have hsize := hs₂.script.size
        have := hs₂.script.room hc
        simp only [Output.ofCommands] at hsize
        omega
    exact ⟨(), s₁, push_eq_ok.2 hs₁, extend_eq_ok.2 ⟨hroom, hs₂⟩⟩

theorem Adds.push_extend_bind {m : Compilation δ β} (h : Adds m Q b o) (c : Command)
    (commands : Script) :
    Adds (do push c; extend commands; m) Q b (.ofCommands (c :: commands.toList) ++ o) := by
  rw [← bind_assoc]
  exact ((adds_push_extend c commands).bind (g := fun _ => m) h).congr (true_and Q).to_iff

/-! ### What reads an element -/

theorem reads_throw (e : CompilationError) (hA : ∀ e, ¬A e) :
    Reads (throw e : Compilation δ α) A r f := by
  intro s a s' _
  apply Iff.intro
  · intro h
    exact absurd h throw_ne_ok
  · intro h
    obtain ⟨nodes, _, _, ha, _⟩ := h
    exact absurd ha (hA _)

theorem reads_unexpectedElement (hA : ∀ e, ¬A e) :
    Reads (unexpectedElement : Compilation δ α) A r f := by
  intro s a s' hd
  rw [unexpectedElement, getCursor_bind]
  exact reads_throw _ hA hd

theorem readsAs_unexpectedElement (hA : ∀ e, e.kind = element → ¬A e) :
    ReadsAs element (unexpectedElement : Compilation δ α) A r f :=
  (reads_unexpectedElement (A := fun _ => False) fun _ => id).readsAs
    (fun e he => ⟨False.elim, hA e he⟩) (fun _ _ _ => rfl) fun _ _ _ => rfl

theorem Reads.location_bind {g : Position → Compilation δ β} (h : ∀ p, Reads (g p) A r f) :
    Reads (location >>= g) A r f := by
  intro s b s' hd
  rw [Compilation.location_bind]
  exact h _ hd

/-- What follows may rely on the condition of what came before. -/
theorem Adds.bind_reads_of {m : Compilation δ α} {g : α → Compilation δ β} (h : Adds m Q a o)
    (hg : Q → Reads (g a) A r f) : Reads (m >>= g) (fun e => Q ∧ A e) r fun e => o ++ f e := by
  intro s b s' hd
  rw [bind_eq_ok]
  apply Iff.intro
  · intro hm
    obtain ⟨a', s₁, hm, hn⟩ := hm
    obtain ⟨hq, rfl, hs₁⟩ := h.1 hm
    have hc := hs₁.cursor
    obtain ⟨nodes, c, hi, ha, rfl, hs₂⟩ := (hg hq (hc ▸ hd)).1 hn
    rw [hc] at hi ha hs₂ ⊢
    exact ⟨nodes, c, hi, ⟨hq, ha⟩, rfl, hs₁.trans hs₂⟩
  · intro hm
    obtain ⟨nodes, c, hi, ⟨hq, ha⟩, rfl, hs⟩ := hm
    obtain ⟨s₁, hs₁, hs₂⟩ := hs.between s.cursor
    have hc := hs₁.cursor
    refine ⟨a, s₁, h.2 ⟨hq, rfl, hs₁⟩, (hg hq (hc.symm ▸ hd)).2 ⟨nodes, c, ?_⟩⟩
    rw [hc]
    exact ⟨hi, ha, rfl, hs₂⟩

theorem Adds.bind_reads {m : Compilation δ α} {g : α → Compilation δ β} (h : Adds m Q a o)
    (hg : Reads (g a) A r f) : Reads (m >>= g) (fun e => Q ∧ A e) r fun e => o ++ f e :=
  h.bind_reads_of fun _ => hg

theorem Reads.bind {m : Compilation δ α} {g : α → Compilation δ β} {Q : Element → Prop}
    {b : Element → β} {o : Element → Output} (h : Reads m A r f)
    (hg : ∀ e, Adds (g (r e)) (Q e) (b e) (o e)) :
    Reads (m >>= g) (fun e => A e ∧ Q e) b fun e => f e ++ o e := by
  intro s b' s' hd
  rw [bind_eq_ok]
  apply Iff.intro
  · intro hm
    obtain ⟨a, s₁, hm, hn⟩ := hm
    obtain ⟨nodes, c, hi, ha, rfl, hs₁⟩ := (h hd).1 hm
    obtain ⟨hq, rfl, hs₂⟩ := (hg _).1 hn
    rw [hs₁.cursor] at hs₂
    exact ⟨nodes, c, hi, ⟨ha, hq⟩, rfl, hs₁.trans hs₂⟩
  · intro hm
    obtain ⟨nodes, c, hi, ⟨ha, hq⟩, rfl, hs⟩ := hm
    obtain ⟨s₁, hs₁, hs₂⟩ := hs.between c
    rw [← hs₁.cursor] at hs₂
    exact ⟨_, s₁, (h hd).2 ⟨nodes, c, hi, ha, rfl, hs₁⟩, (hg _).2 ⟨hq, rfl, hs₂⟩⟩

theorem ReadsAs.bind_pure {m : Compilation δ α} (h : ReadsAs element m A r f) (g : α → β) :
    ReadsAs element (do return g (← m)) A (fun e => g (r e)) f := by
  intro s b s' hd he
  rw [bind_eq_ok]
  apply Iff.intro
  · intro hm
    obtain ⟨a, s₁, hm, hn⟩ := hm
    obtain ⟨nodes, c, hi, ha, rfl, hs⟩ := (h hd he).1 hm
    obtain ⟨rfl, rfl⟩ := pure_eq_ok.1 hn
    exact ⟨nodes, c, hi, ha, rfl, hs⟩
  · intro hm
    obtain ⟨nodes, c, hi, ha, rfl, hs⟩ := hm
    exact ⟨_, s', (h hd he).2 ⟨nodes, c, hi, ha, rfl, hs⟩, pure_eq_ok.2 ⟨rfl, rfl⟩⟩

theorem ReadsAs.location_bind {g : Position → Compilation δ β}
    (h : ∀ p, ReadsAs element (g p) A r f) : ReadsAs element (location >>= g) A r f := by
  intro s b s' hd he
  rw [Compilation.location_bind]
  exact h _ hd he

theorem Reads.discard {m : Compilation δ α} (h : Reads m A r f) : Compiles (discard m) A f := by
  have hmap : (Functor.discard m : Compilation δ PUnit) = m >>= fun _ => pure () :=
    (bind_pure_comp _ m).symm
  rw [hmap]
  apply (h.bind fun _ => adds_pure ()).congr
  · intro e _
    exact and_iff_left trivial
  · intro e _
    rfl
  · intro e _
    exact Output.append_nil _

theorem requireNoAttributes_eq_ok {s s' : CompilationState δ} :
    requireNoAttributes s = (.ok u, s') ↔ s.cursor.attributes = [] ∧ s' = s := by
  rw [requireNoAttributes, getCursor_bind]
  cases s.cursor.attributes with
  | nil => simp [pure_eq_ok]
  | cons => simp [throw_ne_ok]

theorem Reads.requireNoAttributes_bind {m : Compilation δ α} (h : Reads m A r f) :
    Reads (requireNoAttributes >>= fun _ => m) (fun e => e.attributes = [] ∧ A e) r f := by
  intro s a s' hd
  rw [bind_eq_ok]
  simp only [requireNoAttributes_eq_ok]
  apply Iff.intro
  · intro hm
    obtain ⟨_, _, ⟨he, rfl⟩, hm⟩ := hm
    obtain ⟨nodes, c, hn, ha, hr, hs⟩ := (h hd).1 hm
    exact ⟨nodes, c, hn, ⟨he, ha⟩, hr, hs⟩
  · intro hm
    obtain ⟨nodes, c, hn, ⟨he, ha⟩, hr, hs⟩ := hm
    exact ⟨(), s, ⟨he, rfl⟩, (h hd).2 ⟨nodes, c, hn, ha, hr, hs⟩⟩

end ManagementScript.Compilation
