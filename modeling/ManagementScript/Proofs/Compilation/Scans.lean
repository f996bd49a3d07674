import ManagementScript.Proofs.Compilation.Content
import ManagementScript.Proofs.Schema.Agreement

/-!
How compilations of elements are put together. Whatever is compiled, the attributes of the start tag
are looked at first and then what stands inside, from the start tag to the end tag; what comes before,
between and behind them does not move. A statement about every such compilation is proved once, by
induction on how it is put together.
-/

namespace ManagementScript.Compilation

variable {δ : Type}

/-! ### What does not read an element -/

section

variable {α β : Type}

/-- The compilation does not move, and with one script it comes to one result wherever the cursor
is. -/
def Stays (m : Compilation δ α) : Prop :=
  ∀ s t, s.script = t.script → (m s).2.cursor = s.cursor ∧ Agrees (m s).1 (m t).1 ∧
    (m s).2.script = (m t).2.script

/-- The compilation fails everywhere, and not because of what it reads. -/
def Refuses (m : Compilation δ α) : Prop :=
  ∀ s, ∃ e s', m s = (.error e, s') ∧ ∀ r, e ≠ .reader r

/-- The compilation fails everywhere on an unexpected construct. -/
def RefusesConstruct (m : Compilation δ α) : Prop :=
  ∀ s, ∃ e s', m s = (.error e, s') ∧ e.kind = .unexpectedConstruct

theorem stays_pure (a : α) : Stays (pure a : Compilation δ α) := fun _ _ h => ⟨rfl, .ok a, h⟩

theorem stays_check_location {f : Position → Except CompilationError α}
    (h : ∀ p p', Agrees (f p) (f p')) :
    Stays (do check (f (← location)) : Compilation δ α) :=
  fun _ _ hs => ⟨rfl, h _ _, hs⟩

theorem stays_throw_location {f : Position → CompilationError} (h : ∀ p r, f p ≠ .reader r) :
    Stays (do throw (f (← location)) : Compilation δ α) :=
  fun _ _ hs => ⟨rfl, .error (h _) (h _), hs⟩

theorem stays_once (seen : ElementSet) (element : ElementName) :
    Stays (once seen element : Compilation δ ElementSet) :=
  stays_check_location (seen.requireOnce_agrees element)

theorem stays_exclusive (seen : ElementSet) (element : ElementName) (group : List ElementName) :
    Stays (exclusive seen element group : Compilation δ ElementSet) :=
  stays_check_location (seen.requireExclusive_agrees element group)

theorem stays_reserve (names : NameSet) (element : ElementName) (name : String) :
    Stays (do check (names.reserve element name (← location)) : Compilation δ NameSet) :=
  stays_check_location (names.reserve_agrees element name)

theorem stays_emit (event : LogEvent) : Stays (emit event : Compilation δ Unit) :=
  fun _ _ h => ⟨rfl, .ok (), h⟩

theorem stays_push (command : Command) : Stays (push command : Compilation δ Unit) := by
  intro s t h
  simp only [push, h]
  cases t.script.push command with
  | ok script => exact ⟨rfl, .ok (), rfl⟩
  | error e => exact ⟨rfl, .error (by simp [CompilationError.ofCapacity])
      (by simp [CompilationError.ofCapacity]), rfl⟩

theorem stays_extend (commands : Script) : Stays (extend commands : Compilation δ Unit) := by
  intro s t h
  simp only [extend, h]
  cases t.script.extend commands with
  | ok script => exact ⟨rfl, .ok (), rfl⟩
  | error e => exact ⟨rfl, .error (by simp [CompilationError.ofCapacity])
      (by simp [CompilationError.ofCapacity]), rfl⟩

theorem Stays.bind {m : Compilation δ α} {f : α → Compilation δ β} (h : Stays m)
    (hf : ∀ a, Stays (f a)) : Stays (m >>= f) := by
  intro s t hs
  obtain ⟨hc, ha, hscript⟩ := h s t hs
  rw [bind_apply, bind_apply]
  generalize m s = x at hc ha hscript
  generalize m t = y at ha hscript
  obtain ⟨result, s₁⟩ := x
  obtain ⟨result', t₁⟩ := y
  simp only at hc ha hscript
  cases ha with
  | ok a =>
    obtain ⟨hc', ha', hscript'⟩ := hf a s₁ t₁ hscript
    exact ⟨hc'.trans hc, ha', hscript'⟩
  | error h h' => exact ⟨hc, .error h h', hscript⟩

theorem Stays.eq_ok {m : Compilation δ α} {s t s' : CompilationState δ} (h : Stays m)
    (hs : s.script = t.script) (hm : m s = (.ok a, s')) :
    ∃ t', m t = (.ok a, t') ∧ s'.cursor = s.cursor ∧ t'.cursor = t.cursor ∧
      s'.script = t'.script := by
  obtain ⟨hc, ha, hscript⟩ := h s t hs
  rw [hm] at hc ha hscript
  exact ⟨(m t).2, Prod.ext (ha.eq_ok rfl) rfl, hc, (h t t rfl).1, hscript⟩

theorem Stays.cursor {m : Compilation δ α} {s s' : CompilationState δ} (h : Stays m)
    (hm : m s = (result, s')) : s'.cursor = s.cursor := by
  have hc := (h s s rfl).1
  rwa [hm] at hc

theorem Stays.ne_reader {m : Compilation δ α} {s s' : CompilationState δ} (h : Stays m)
    (hm : m s = (.error e, s')) (r : ReadError) : e ≠ .reader r := by
  have ha := (h s s rfl).2.1
  rw [hm] at ha
  exact ha.ne_reader rfl r

theorem refuses_unexpectedElement : Refuses (unexpectedElement : Compilation δ α) :=
  fun s => ⟨_, s, rfl, by simp⟩

theorem refusesConstruct_unexpectedElement :
    RefusesConstruct (unexpectedElement : Compilation δ α) :=
  fun s => ⟨_, s, rfl, rfl⟩

theorem Refuses.bind {m : Compilation δ α} (h : Refuses m) (f : α → Compilation δ β) :
    Refuses (m >>= f) := by
  intro s
  obtain ⟨e, s', hm, he⟩ := h s
  rw [bind_apply, hm]
  exact ⟨e, s', rfl, he⟩

theorem RefusesConstruct.bind {m : Compilation δ α} (h : RefusesConstruct m)
    (f : α → Compilation δ β) : RefusesConstruct (m >>= f) := by
  intro s
  obtain ⟨e, s', hm, he⟩ := h s
  rw [bind_apply, hm]
  exact ⟨e, s', rfl, he⟩

end

/-! ### What reads an element -/

/-- Whether the start tag is still to be looked at, or only what stands inside. -/
inductive Stage where
  | tag
  | content

/-- The compilation looks at an element from the given stage on, with constructs that are admitted, and
refuses children that are not in the vocabulary. -/
inductive Scans (admits : Construct → Prop) (grammar : GrammarNamespace) :
    Stage → {α : Type} → Compilation δ α → Prop where
  | noContent : Scans admits grammar .content requireNoContent
  | text : Scans admits grammar .content (move Cursor.elementText)
  | children {σ : Type} {seen : σ} {visit : σ → ElementName → Compilation δ σ}
      (h : ∀ seen element, Scans admits grammar .tag (visit seen element))
      (hunknown : ∀ seen, RefusesConstruct (visit seen .unknown)) :
      Scans admits grammar .content (forChildren grammar seen visit)
  | bare {α : Type} {m : Compilation δ α} (h : Scans admits grammar .content m) :
      Scans admits grammar .tag (do requireNoAttributes; m)
  | tagged {α : Type} {g : Construct.Reading → Compilation δ α} (hc : admits construct)
      (h : ∀ r, Scans admits grammar .content (g r)) :
      Scans admits grammar .tag (readInto construct ps >>= g)
  | refuse {α : Type} {m : Compilation δ α} (h : Refuses m) : Scans admits grammar stage m
  | isolated {α : Type} {m : Compilation δ α} (h : Scans admits grammar stage m) :
      Scans admits grammar stage (isolated m)
  | before {α β : Type} {m : Compilation δ α} {g : α → Compilation δ β} (h : Stays m)
      (hg : ∀ a, Scans admits grammar stage (g a)) : Scans admits grammar stage (m >>= g)
  | after {α β : Type} {m : Compilation δ α} {g : α → Compilation δ β}
      (h : Scans admits grammar stage m) (hg : ∀ a, Stays (g a)) : Scans admits grammar stage (m >>= g)

namespace Scans

variable {α : Type} {admits : Construct → Prop} {grammar : GrammarNamespace}

theorem discard {m : Compilation δ α} (h : Scans admits grammar stage m) :
    Scans admits grammar stage (discard m) := by
  have hmap : (Functor.discard m : Compilation δ PUnit) = m >>= fun _ => pure () :=
    (bind_pure_comp _ m).symm
  rw [hmap]
  exact h.after fun _ => stays_pure _

theorem readParameters_bind {g : Parameters → Compilation δ α} (hc : admits construct)
    (h : ∀ ps, Scans admits grammar .content (g ps)) :
    Scans admits grammar .tag (readParameters construct ps >>= g) := by
  rw [readParameters, bind_assoc]
  simp only [pure_bind]
  exact .tagged hc fun _ => h _

theorem readNamed_bind {g : String × Parameters → Compilation δ α} (hc : admits construct)
    (h : ∀ x, Scans admits grammar .content (g x)) :
    Scans admits grammar .tag (readNamed construct >>= g) := by
  rw [readNamed, bind_assoc]
  simp only [pure_bind]
  exact .tagged hc fun _ => h _

theorem leaf {construct : Construct} (hc : admits construct) (address : Address) :
    Scans admits grammar .tag (leaf construct address : Compilation δ Unit) :=
  .readParameters_bind hc fun _ => .after .noContent fun _ => stays_push _

end Scans

end ManagementScript.Compilation
