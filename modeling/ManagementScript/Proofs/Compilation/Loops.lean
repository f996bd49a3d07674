import ManagementScript.Proofs.Compilation.Consumption
import ManagementScript.Proofs.Tree.Loops

/-!
The loops over the children of an element come to an end. A visit that succeeds does not go back, so each
child leaves fewer tags behind it, however the translators are nested and wherever they begin.
-/

namespace ManagementScript.Compilation

variable {δ α β σ : Type} {grammar : GrammarNamespace}

/-- One child of the current element, or its end tag. -/
def childStep (grammar : GrammarNamespace) (visit : σ → ElementName → Compilation δ σ) (seen : σ) :
    Compilation δ (σ ⊕ σ) := do
  match ← nextElement grammar with
  | none => return .inr seen
  | some element => return .inl (← visit seen element)

/-- A computation that moves along single tags, and over children in loops that end wherever they begin:
each loop is the step for one child, repeated as often as there are tags at most, and once more. -/
inductive Halts : {α : Type} → Compilation δ α → Prop where
  | still {α : Type} {m : Compilation δ α} (h : ∀ s, (m s).2.cursor = s.cursor) : Halts m
  | refuse {α : Type} {m : Compilation δ α} (h : Refuses m) : Halts m
  | next : Halts (move Cursor.next)
  | elementText : Halts (move Cursor.elementText)
  | skipElement : Halts (move Cursor.skipElement)
  | isolated {α : Type} {m : Compilation δ α} (h : Halts m) : Halts (isolated m)
  | bind {α β : Type} {m : Compilation δ α} {f : α → Compilation δ β} (h : Halts m)
      (hf : ∀ a, Halts (f a)) : Halts (m >>= f)
  | children {grammar : GrammarNamespace} {σ : Type} {seen : σ} {visit : σ → ElementName → Compilation δ σ}
      (h : ∀ seen element, Halts (visit seen element))
      (hends : ∀ seen s, ∃ k ≤ s.cursor.tagsAhead + 1,
        Iterates (childStep grammar visit) k seen s (forChildren grammar seen visit s)) :
      Halts (forChildren grammar seen visit)

/-- A success of the computation leaves the cursor no further back. -/
def Advances (m : Compilation δ α) : Prop :=
  ∀ s a s', m s = (.ok a, s') → s.cursor.Passes s'.cursor

theorem advances_of_still {m : Compilation δ α} (h : ∀ s, (m s).2.cursor = s.cursor) : Advances m := by
  intro s a s' hm
  have hcursor := h s
  rw [hm] at hcursor
  exact hcursor ▸ .refl s.cursor

theorem advances_move {step : Cursor → Cursor.Moved α} (h : ∀ c : Cursor, c.Passes (step c).2) :
    Advances (move step : Compilation δ α) := by
  intro s a s' hm
  obtain ⟨c, hc, hs⟩ := move_eq_ok.1 hm
  have hpasses := h s.cursor
  rw [hc] at hpasses
  rwa [hs.cursor]

theorem Advances.bind {m : Compilation δ α} {f : α → Compilation δ β} (h : Advances m)
    (hf : ∀ a, Advances (f a)) : Advances (m >>= f) := by
  intro s b s' hm
  obtain ⟨a, s₁, hfirst, hrest⟩ := bind_eq_ok.1 hm
  exact (h _ _ _ hfirst).trans (hf a _ _ _ hrest)

theorem advances_nextElement : Advances (nextElement grammar : Compilation δ _) := by
  intro s r s' h
  have hnext (c : Cursor) : c.Passes c.next.2 := Cursor.passes_nextAmong c c.pending
  rcases nextElement_eq_ok.1 h with ⟨_, d, hd, hs⟩ | ⟨i, hi, _, _, hs⟩
  · have hpasses := hnext s.cursor
    rwa [hd, ← hs.cursor] at hpasses
  · have hpasses := hnext s.cursor
    rwa [hi, ← hs.cursor] at hpasses

theorem nextElement_tagsAhead_lt {s s' : CompilationState δ} (h : nextElement grammar s = (.ok r, s')) :
    s'.cursor.tagsAhead < s.cursor.tagsAhead := by
  rcases nextElement_eq_ok.1 h with ⟨_, d, hd, hs⟩ | ⟨i, hi, _, _, hs⟩
  · rw [hs.cursor]
    exact Cursor.next_tagsAhead_lt hd nofun
  · rw [hs.cursor]
    exact Cursor.next_tagsAhead_lt hi nofun

section Children

variable {visit : σ → ElementName → Compilation δ σ}

theorem childStep_eq_more {s s' : CompilationState δ}
    (h : childStep grammar visit seen s = (.ok (.inl seen'), s')) :
    ∃ element s₁, nextElement grammar s = (.ok (some element), s₁) ∧
      visit seen element s₁ = (.ok seen', s') := by
  obtain ⟨r, s₁, hn, h⟩ := bind_eq_ok.1 h
  cases r with
  | none => cases (pure_eq_ok.1 h).1
  | some element =>
    obtain ⟨seen₁, s₂, hv, h⟩ := bind_eq_ok.1 h
    obtain ⟨hseen, rfl⟩ := pure_eq_ok.1 h
    cases hseen
    exact ⟨element, s₁, hn, hv⟩

theorem visitAmong_cons_eq_unroll (event : Xml.Event) (ahead : List Xml.Event) (seen : σ)
    (s : CompilationState δ) : visitAmong grammar visit seen (event :: ahead) s =
      Iterates.unroll (childStep grammar visit) (visitAmong grammar visit · ahead) seen s := by
  rw [visitAmong, Iterates.unroll, childStep, bind_apply, bind_apply]
  cases nextElement grammar s with
  | mk r s₁ =>
    cases r with
    | error e => rfl
    | ok r =>
      cases r with
      | none => rfl
      | some element =>
        simp only [bind_apply]
        cases visit seen element s₁ with
        | mk r s₂ => cases r <;> rfl

/-- Where nothing is left to read, no child is met. -/
theorem visitAmong_nil_eq_unroll {s : CompilationState δ} (hp : s.cursor.pending.length = 0) (seen : σ)
    (loop : σ → CompilationState δ → Except CompilationError σ × CompilationState δ) :
    visitAmong grammar visit seen [] s = Iterates.unroll (childStep grammar visit) loop seen s := by
  cases hn : nextElement grammar s with
  | mk r s₁ =>
    cases r with
    | error e =>
      have hvisit : visitAmong grammar visit seen [] s = (.error e, s₁) :=
        bind_eq_error.2 (.inl (bind_eq_error.2 (.inl hn)))
      have hstep : childStep grammar visit seen s = (.error e, s₁) := bind_eq_error.2 (.inl hn)
      rw [hvisit, Iterates.unroll, hstep]
    | ok r => exact absurd (hp ▸ nextElement_pending_lt hn) (Nat.not_lt_zero _)

/-- The events that are not read suffice for the loop, so it ends like one without them. -/
theorem forChildren_iterates (hv : ∀ seen element, Advances (visit seen element)) (seen : σ)
    (s : CompilationState δ) : ∃ k ≤ s.cursor.tagsAhead + 1,
      Iterates (childStep grammar visit) k seen s (forChildren grammar seen visit s) := by
  apply Iterates.of_countdown (fun ahead seen => visitAmong grammar visit seen ahead)
    (·.cursor.pending.length) (·.cursor.tagsAhead)
  · exact visitAmong_cons_eq_unroll
  · exact fun seen s hp => visitAmong_nil_eq_unroll hp seen _
  · intro seen s seen' s' h
    obtain ⟨element, s₁, hn, hvisit⟩ := childStep_eq_more h
    have hadvance := hv _ _ _ _ _ hvisit
    exact ⟨Nat.lt_of_le_of_lt hadvance.pending.length_le (nextElement_pending_lt hn),
      Nat.lt_of_le_of_lt hadvance.tagsAhead_le (nextElement_tagsAhead_lt hn)⟩
  · exact Nat.le_refl _

theorem advances_childStep (hv : ∀ seen element, Advances (visit seen element)) (seen : σ) :
    Advances (childStep grammar visit seen) := by
  apply advances_nextElement.bind
  intro r
  cases r with
  | none => exact advances_of_still fun _ => rfl
  | some element => exact (hv seen element).bind fun _ => advances_of_still fun _ => rfl

end Children

theorem passes_of_iterates {step : α → Compilation δ (α ⊕ β)} (h : ∀ a, Advances (step a))
    {s s' : CompilationState δ} (hk : Iterates step k a s (.ok b, s')) : s.cursor.Passes s'.cursor := by
  generalize hm : (Except.ok b, s') = moved at hk
  induction hk with
  | failed => cases hm
  | done hstep =>
    cases hm
    exact h _ _ _ _ hstep
  | again hstep _ ih => exact (h _ _ _ _ hstep).trans (ih hm)

namespace Halts

theorem advances {m : Compilation δ α} (h : Halts m) : Advances m := by
  induction h with
  | still h => exact advances_of_still h
  | refuse h =>
    intro s a s' hm
    obtain ⟨e, s₁, he, _⟩ := h s
    cases he.symm.trans hm
  | next => exact advances_move fun c => Cursor.passes_nextAmong c c.pending
  | elementText => exact advances_move fun c => Cursor.passes_textAmong c "" c.pending
  | skipElement => exact advances_move fun c => Cursor.passes_skipAmong _ c c.pending
  | isolated _ ih =>
    intro s ⟨a, script⟩ s' hm
    have hpasses := ih _ _ _ (isolated_eq_ok.1 hm).1
    exact hpasses
  | bind _ _ ih ihf => exact ih.bind ihf
  | children _ hends ih =>
    intro s a s' hm
    obtain ⟨k, _, hk⟩ := hends _ s
    rw [hm] at hk
    exact passes_of_iterates (advances_childStep ih) hk

theorem forChildren {visit : σ → ElementName → Compilation δ σ}
    (h : ∀ seen element, Halts (visit seen element)) (seen : σ) :
    Halts (forChildren grammar seen visit) :=
  .children h (forChildren_iterates fun seen element => (h seen element).advances)

theorem requireNoContent : Halts (requireNoContent : Compilation δ Unit) := by
  apply Halts.bind
  · apply Halts.next.bind
    intro tag
    cases tag with
    | start | finish | endOfDocument => exact .still fun _ => rfl
  · intro tag
    cases tag with
    | start | finish | endOfDocument => exact .still fun _ => rfl

theorem requireNoAttributes : Halts (requireNoAttributes : Compilation δ Unit) := by
  apply Halts.still
  intro s
  rw [Compilation.requireNoAttributes, getCursor_bind]
  cases s.cursor.attributes with
  | nil | cons => rfl

end Halts

/-- Every translator halts. -/
theorem Scans.halts {m : Compilation δ α} (h : Scans admits grammar stage m) : Halts m := by
  induction h with
  | noContent => exact .requireNoContent
  | text => exact .elementText
  | children _ _ ih => exact .forChildren ih _
  | bare _ ih => exact Halts.requireNoAttributes.bind fun _ => ih
  | tagged _ _ ih => exact (Halts.still fun s => by rw [readInto_state]).bind ih
  | refuse h => exact .refuse h
  | isolated _ ih => exact ih.isolated
  | before h _ ih => exact (Halts.still fun s => (h s s rfl).1).bind ih
  | after _ hg ih => exact ih.bind fun a => .still fun s => (hg a s s rfl).1

namespace Halts

variable {delegate : Delegate δ}

theorem offer (h : ∀ category address, Halts (delegate.offer category address)) (category : Category)
    (address : Address) {builtIn : Compilation δ Unit} (hb : Halts builtIn) :
    Halts (offer delegate category address builtIn) := by
  apply (h category address).bind
  intro taken
  cases taken with
  | true => exact .still fun _ => rfl
  | false => exact hb

theorem once_bind {f : ElementSet → Compilation δ α} (h : ∀ seen, Halts (f seen)) (seen : ElementSet)
    (element : ElementName) : Halts (once seen element >>= f) :=
  (Halts.still fun s => (stays_once seen element s s rfl).1).bind h

theorem managementChild (h : ∀ category address, Halts (delegate.offer category address))
    (address : Address) (seen : ElementSet) (element : ElementName) :
    Halts (managementChild grammar delegate address seen element) := by
  have hrefused : Halts (unexpectedElement : Compilation δ Unit) := .refuse refuses_unexpectedElement
  have hchanges : Halts (leaf .configurationChanges (address.append "service" "configuration-changes") :
      Compilation δ Unit) :=
    (@Scans.leaf δ Construct.Regular grammar .configurationChanges (by decide) _).halts
  have hkept {m : Compilation δ Unit} (hm : Halts m) (seen : ElementSet) :
      Halts (do m; return seen) := hm.bind fun _ => .still fun _ => rfl
  unfold Compilation.managementChild
  split
  · exact once_bind (hkept (offer h _ _ (Scans.securityRealms address).halts)) _ _
  · exact once_bind (hkept (offer h _ _ (Scans.outboundConnections address).halts)) _ _
  · exact once_bind (hkept (offer h _ _ hrefused)) _ _
  · exact hkept (offer h _ _ hrefused) seen
  · exact hkept (offer h _ _ hrefused) seen
  · exact once_bind (hkept hchanges) _ _
  · exact .refuse refuses_unexpectedElement

/-- A management element is compiled in the end, if whoever handles parts of it halts. -/
theorem management (h : ∀ category address, Halts (delegate.offer category address)) (base : Address)
    (native : Bool) : Halts (management grammar delegate base native) := by
  apply requireNoAttributes.bind
  intro _
  apply (Halts.still fun s => rfl).bind
  intro _
  apply (forChildren (managementChild h _) _).isolated.bind
  intro (seen, commands)
  have hadd : Halts (do
      extend commands
      succeed .managementCompiled "Management element translated"
        [("namespace", grammar.uri), ("operations", toString commands.size)] : Compilation δ Unit) :=
    (Halts.still fun s => (stays_extend commands s s rfl).1).bind fun _ => .still fun _ => rfl
  dsimp only
  split
  · exact .bind (.still fun _ => rfl) fun _ => .bind (.still fun _ => rfl) fun _ => hadd
  · exact hadd

end Halts

end ManagementScript.Compilation
