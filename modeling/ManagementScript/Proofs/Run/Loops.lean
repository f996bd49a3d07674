import ManagementScript.Proofs.Compilation.Loops
import ManagementScript.Proofs.Run.Sections

/-!
Reading always ends, whatever the text is: the moves from tag to tag, the loops of the cursor, those of the
translators and that over the sections of a document.
-/

namespace ManagementScript

namespace DocumentCompilation

variable {grammar : GrammarNamespace} {o : RunOptions}

/-- One section of the document, or the end tag of the root. -/
def sectionStep (grammar : GrammarNamespace) (o : RunOptions) (found : Bool) :
    DocumentCompilation (Bool ⊕ Bool) := do
  match ← move Cursor.next with
  | .start => return .inl (← readSection grammar o found)
  | .finish | .endOfDocument => return .inr found

/-- Reads the sections that are before the cursor. -/
def sections (grammar : GrammarNamespace) (o : RunOptions) (found : Bool) : DocumentCompilation Bool := do
  sectionsAmong grammar o found (← getCursor).pending

theorem passes_readSection {s s' : CompilationState Unit}
    (h : readSection grammar o found s = (.ok found', s')) : s.cursor.Passes s'.cursor := by
  rw [readSection_eq_ok] at h
  split at h
  · obtain ⟨_, _, hm⟩ := h
    exact (Compilation.Scans.management _ _).halts.advances _ _ _ (ofCompilation_eq_ok hm)
  · have hskip := Cursor.passes_skipAmong (s.cursor.depth - 1) s.cursor s.cursor.pending
    have hmoved : s.cursor.skipElement = (.ok (), s'.cursor) := move_eq_ok h.2
    rw [Cursor.skipElement] at hmoved
    rwa [hmoved] at hskip

theorem sectionStep_eq_more {s s' : CompilationState Unit}
    (h : sectionStep grammar o found s = (.ok (.inl found'), s')) :
    ∃ s₁, move Cursor.next s = (.ok .start, s₁) ∧ readSection grammar o found s₁ = (.ok found', s') := by
  obtain ⟨tag, s₁, hm, h⟩ := stateful_bind_eq_ok.1 h
  cases tag with
  | start =>
    obtain ⟨found₁, s₂, hsection, h⟩ := stateful_bind_eq_ok.1 h
    cases h
    exact ⟨s₁, hm, hsection⟩
  | finish | endOfDocument => cases h

theorem sectionsAmong_cons_eq_unroll (event : Xml.Event) (ahead : List Xml.Event) (found : Bool)
    (s : CompilationState Unit) : sectionsAmong grammar o found (event :: ahead) s =
      Iterates.unroll (sectionStep grammar o) (sectionsAmong grammar o · ahead) found s := by
  rw [sectionsAmong, Iterates.unroll, sectionStep, stateful_bind_apply, stateful_bind_apply]
  cases move Cursor.next s with
  | mk r s₁ =>
    cases r with
    | error e => rfl
    | ok tag =>
      cases tag with
      | finish | endOfDocument => rfl
      | start =>
        simp only [stateful_bind_apply]
        cases readSection grammar o found s₁ with
        | mk r s₂ => cases r <;> rfl

/-- Where nothing is left to read, no section is met. -/
theorem sectionsAmong_nil_eq_unroll {s : CompilationState Unit} (hp : s.cursor.pending.length = 0)
    (found : Bool) (loop : Bool → CompilationState Unit → Except RunError Bool × CompilationState Unit) :
    sectionsAmong grammar o found [] s = Iterates.unroll (sectionStep grammar o) loop found s := by
  cases hm : move Cursor.next s with
  | mk r s₁ =>
    cases r with
    | error e =>
      have hread : sectionsAmong grammar o found [] s = (.error e, s₁) :=
        stateful_bind_eq_error.2 (.inl (stateful_bind_eq_error.2 (.inl hm)))
      have hstep : sectionStep grammar o found s = (.error e, s₁) := stateful_bind_eq_error.2 (.inl hm)
      rw [hread, Iterates.unroll, hstep]
    | ok tag =>
      cases tag with
      | start =>
        have hlt := Cursor.next_pending_lt (move_eq_ok hm) (by simp)
        omega
      | finish | endOfDocument =>
        have hread : sectionsAmong grammar o found [] s = (.ok found, s₁) :=
          stateful_bind_eq_ok.2 ⟨(), s₁, stateful_bind_eq_ok.2 ⟨_, s₁, hm, rfl⟩, rfl⟩
        have hstep : sectionStep grammar o found s = (.ok (.inr found), s₁) :=
          stateful_bind_eq_ok.2 ⟨_, s₁, hm, rfl⟩
        rw [hread, Iterates.unroll, hstep]

/-- The events that are not read suffice for the loop, so it ends like one without them. -/
theorem sections_iterates (found : Bool) (s : CompilationState Unit) : ∃ k ≤ s.cursor.tagsAhead + 1,
    Iterates (sectionStep grammar o) k found s (sections grammar o found s) := by
  apply Iterates.of_countdown (fun ahead found => sectionsAmong grammar o found ahead)
    (·.cursor.pending.length) (·.cursor.tagsAhead)
  · exact sectionsAmong_cons_eq_unroll
  · exact fun found s hp => sectionsAmong_nil_eq_unroll hp found _
  · intro found s found' s' h
    obtain ⟨s₁, hm, hsection⟩ := sectionStep_eq_more h
    have hpasses := passes_readSection hsection
    exact ⟨Nat.lt_of_le_of_lt hpasses.pending.length_le (Cursor.next_pending_lt (move_eq_ok hm) nofun),
      Nat.lt_of_le_of_lt hpasses.tagsAhead_le (Cursor.next_tagsAhead_lt (move_eq_ok hm) nofun)⟩
  · exact Nat.le_refl _

end DocumentCompilation

namespace Run

open Compilation (Halts Scans)
open Cursor (results onTag)

/-- Each loop that reads comes to an end, wherever it begins. -/
structure LoopsEnd : Prop where
  next : ∀ c : Cursor, ∃ k ≤ c.pending.length + 1, Iterates Cursor.nextStep k () c c.next
  elementText : ∀ c : Cursor, ∃ k ≤ c.pending.length + 1, Iterates Cursor.textStep k "" c c.elementText
  skipElement : ∀ c : Cursor, ∃ k ≤ c.pending.length + 1,
    Iterates (Cursor.skipStep (c.depth - 1)) k () c c.skipElement
  sections : ∀ grammar o found s, ∃ k ≤ s.cursor.tagsAhead + 1,
    Iterates (DocumentCompilation.sectionStep grammar o) k found s
      (DocumentCompilation.sections grammar o found s)
  translators : ∀ {δ α : Type} {admits grammar stage} {m : Compilation δ α},
    Scans admits grammar stage m → Halts m
  management : ∀ {δ : Type} (delegate : Delegate δ) grammar base native,
    (∀ category address, Halts (delegate.offer category address)) →
      Halts (Compilation.management grammar delegate base native)

theorem loopsEnd : LoopsEnd where
  next := Cursor.next_iterates
  elementText := Cursor.elementText_iterates
  skipElement := Cursor.skipElement_iterates
  sections _ _ := DocumentCompilation.sections_iterates
  translators := Scans.halts
  management _ _ _ _ h := Halts.management h _ _

/-- With `n` occurrences of `<` in the text, moves from tag to tag give `2 * n` start tags and end tags at
most, failed moves not counted; one of the moves behind no more of them than that meets the end of the
document or fails. At the end of the document all further moves stay, and each loop that reads comes to an
end. -/
theorem reading_ends (source : String) :
    (∀ k, (results k (.ofString source)).countP onTag ≤ 2 * source.toList.count '<') ∧
    (∃ k ≤ 2 * source.toList.count '<', ∃ last, onTag last = false ∧
      results (k + 1) (.ofString source) = results k (.ofString source) ++ [last] ∧
      ∀ result ∈ results k (.ofString source), onTag result = true) ∧
    (∀ c d : Cursor, c.next = (.ok .endOfDocument, d) →
      ∀ k, results k d = List.replicate k (.ok .endOfDocument)) ∧
    LoopsEnd := by
  have hbound : (Cursor.ofString source).tagsAhead ≤ 2 * source.toList.count '<' :=
    Xml.countP_events_le source
  refine ⟨fun k => (Cursor.countP_results_le k _).trans hbound, ?_, fun c d => Cursor.results_of_ended,
    loopsEnd⟩
  obtain ⟨k, hk, hlast⟩ := Cursor.exists_results (.ofString source)
  exact ⟨k, hk.trans hbound, hlast⟩

namespace TwoElementsSample

def atEnd : Cursor := (Cursor.ofString "<a><b/></a>").next.2.next.2.next.2.next.2

theorem next_atEnd : atEnd.next.1 = .ok .endOfDocument := by cbv

theorem reading_ends_stays : atEnd.next.1 = .ok .endOfDocument ∧
    (∀ k, results k atEnd.next.2 = List.replicate k (.ok .endOfDocument)) ∧
    Halts (Compilation.management .domain42 Delegate.declining .root false) := by
  obtain ⟨_, _, hstays, hloops⟩ := reading_ends "<a><b/></a>"
  exact ⟨next_atEnd, hstays atEnd _ (Prod.ext next_atEnd rfl),
    hloops.management _ _ _ _ fun _ _ => .still fun _ => rfl⟩

end TwoElementsSample

end Run

end ManagementScript
