import ManagementScript.Diagnostics.Journal
import ManagementScript.Proofs.Diagnostics.Collection
import ManagementScript.Proofs.Diagnostics.Records

/-!
Blocks of work on documents. A block makes its document the current one and leaves none behind, so errors
and warnings are collected under the innermost block around them exactly as long as no block stands inside
another one: behind an inner block the rest of the outer one belongs to no document.
-/

namespace ManagementScript

open Collector

namespace Journal

/-- Events and blocks of work on documents, one after the other. -/
inductive Program where
  | done
  | dispatch (event : LogEvent) (rest : Program)
  | within (document : DocumentContext) (body rest : Program)

namespace Program

/-- The journal behind the program. -/
def run (p : LoggingPreferences) : Program → Journal → Journal
  | done, journal => journal
  | dispatch event rest, journal => rest.run p (journal.dispatch p event)
  | within document body rest, journal => rest.run p (journal.within document (body.run p))

/-- What is recorded of an event in work on a document. -/
def recordOf (p : LoggingPreferences) : Option DocumentContext → LogEvent → List Record
  | none, _ => []
  | some d, event =>
    if event.isError || event.isWarning then [(d.path, withDocumentFacts p (some d) event)] else []

/-- The errors and warnings, each with the innermost block around it, or else with the outer document. -/
def attributed (p : LoggingPreferences) (outer : Option DocumentContext) : Program → List Record
  | done => []
  | dispatch event rest => recordOf p outer event ++ rest.attributed p outer
  | within document body rest => body.attributed p (some document) ++ rest.attributed p outer

/-- The errors and warnings that are recorded. What follows a block belongs to no document. -/
def recorded (p : LoggingPreferences) (outer : Option DocumentContext) : Program → List Record
  | done => []
  | dispatch event rest => recordOf p outer event ++ rest.recorded p outer
  | within document body rest => body.recorded p (some document) ++ rest.recorded p none

/-- Behind each block the current document is the one before it. -/
def Restores (p : LoggingPreferences) : Program → Journal → Prop
  | done, _ => True
  | dispatch event rest, journal => rest.Restores p (journal.dispatch p event)
  | within document body rest, journal => body.Restores p (journal.enter document) ∧
      (journal.within document (body.run p)).document = journal.document ∧
      rest.Restores p (journal.within document (body.run p))

/-- There is no block. -/
def IsPlain : Program → Prop
  | done => True
  | dispatch _ rest => rest.IsPlain
  | within .. => False

/-- No block stands inside another one. -/
def IsFlat : Program → Prop
  | done => True
  | dispatch _ rest => rest.IsFlat
  | within _ body rest => body.IsPlain ∧ rest.IsFlat

/-- There is room for all errors and warnings of each document. -/
def Fits (p : LoggingPreferences) (program : Program) : Prop :=
  ∀ path, (recordedUnder path (program.attributed p none)).length < Limits.documentEvents

/-- The blocks of a program that begins with an empty journal nest: the errors and warnings that are
collected under a path are those of the blocks that are the innermost ones around them and have this path,
once each and in order, and each block restores the current document. -/
structure Nests (p : LoggingPreferences) (program : Program) : Prop where
  attributed : ∀ path, (program.run p .empty).collector.events path =
    recordedUnder path (program.attributed p none)
  restores : program.Restores p .empty

variable {p : LoggingPreferences} {program : Program}

/-! ### What a program records -/

theorem collector_dispatch (journal : Journal) (event : LogEvent) :
    (journal.dispatch p event).collector =
      journal.collector.recordAll (recordOf p journal.document event) := by
  obtain ⟨collector, document, logged⟩ := journal
  cases document with
  | none => rfl
  | some d =>
    simp only [Journal.dispatch, isError_withDocumentFacts, isWarning_withDocumentFacts, recordOf]
    split <;> rfl

theorem collector_run (program : Program) (journal : Journal) :
    (program.run p journal).collector =
      journal.collector.recordAll (program.recorded p journal.document) := by
  induction program generalizing journal with
  | done => rfl
  | dispatch event rest ih =>
    rw [run, recorded, recordAll_append, ← collector_dispatch]
    exact ih (journal.dispatch p event)
  | within document body rest ihbody ihrest =>
    have hbody : (journal.within document (body.run p)).collector = _ := ihbody (journal.enter document)
    rw [run, recorded, recordAll_append, ihrest, hbody]
    rfl

/-- Nothing is recorded but what belongs to a block, though not all of it may be. -/
theorem recorded_sublist (program : Program) (outer : Option DocumentContext) :
    (program.recorded p outer).Sublist (program.attributed p outer) ∧
      (program.recorded p none).Sublist (program.attributed p outer) := by
  induction program generalizing outer with
  | done => exact ⟨.slnil, .slnil⟩
  | dispatch event rest ih =>
    obtain ⟨hsame, hnone⟩ := ih outer
    exact ⟨(List.Sublist.refl _).append hsame, (List.nil_sublist _).append hnone⟩
  | within document body rest ihbody ihrest =>
    have hbody := (ihbody (some document)).1
    have hrest := (ihrest outer).2
    exact ⟨hbody.append hrest, hbody.append hrest⟩

/-- Where there is room, the collected events are the recorded ones. -/
theorem Fits.events_run (h : program.Fits p) (path : String) :
    (program.run p .empty).collector.events path = recordedUnder path (program.recorded p none) := by
  have hfew := (recordedUnder_sublist path (program.recorded_sublist (p := p) none).1).length_le
  have hroom : (Collector.empty.events path).length +
      (recordedUnder path (program.recorded p none)).length ≤ Limits.documentEvents := by
    have hmany := h path
    have hempty : (Collector.empty.events path).length = 0 := rfl
    omega
  rw [collector_run]
  exact events_recordAll isAscending_empty hroom

/-! ### Blocks that do not nest -/

theorem IsPlain.recorded_eq (h : program.IsPlain) (outer : Option DocumentContext) :
    program.recorded p outer = program.attributed p outer := by
  induction program with
  | done => rfl
  | dispatch event rest ih => rw [recorded, attributed, ih h]
  | within document body rest => exact h.elim

theorem IsFlat.recorded_eq (h : program.IsFlat) :
    program.recorded p none = program.attributed p none := by
  induction program with
  | done => rfl
  | dispatch event rest ih => rw [recorded, attributed, ih h]
  | within document body rest _ ihrest => rw [recorded, attributed, h.1.recorded_eq, ihrest h.2]

/-- Inside a block, a program restores the document exactly if there is no further block. -/
theorem restores_inside_iff {journal : Journal} (h : journal.document = some d) :
    program.Restores p journal ↔ program.IsPlain := by
  induction program generalizing journal with
  | done => exact Iff.rfl
  | dispatch event rest ih => exact @ih (journal.dispatch p event) h
  | within document body rest =>
    refine iff_of_false (fun hrestores => ?_) id
    have hlost : none = some d := hrestores.2.1.trans h
    cases hlost

theorem restores_outside_iff {journal : Journal} (h : journal.document = none) :
    program.Restores p journal ↔ program.IsFlat := by
  induction program generalizing journal with
  | done => exact Iff.rfl
  | dispatch event rest ih => exact @ih (journal.dispatch p event) h
  | within document body rest _ ihrest =>
    have hbody : body.Restores p (journal.enter document) ↔ body.IsPlain := restores_inside_iff rfl
    have hrest := @ihrest (journal.within document (body.run p)) rfl
    apply Iff.intro
    · rintro ⟨hinner, -, hbehind⟩
      exact ⟨hbody.1 hinner, hrest.1 hbehind⟩
    · rintro ⟨hinner, hbehind⟩
      exact ⟨hbody.2 hinner, h.symm, hrest.2 hbehind⟩

/-- What is collected under each path is what the blocks record before a block inside them ends, and blocks
nest exactly where none stands inside another one. -/
theorem blocks_nest_iff_flat (p : LoggingPreferences) (program : Program) (hroom : program.Fits p) :
    (∀ path, (program.run p .empty).collector.events path =
      recordedUnder path (program.recorded p none)) ∧
    (program.Nests p ↔ program.IsFlat) := by
  refine ⟨hroom.events_run, fun hnests => (restores_outside_iff rfl).1 hnests.restores, fun hflat => ?_⟩
  have hevents (path : String) : (program.run p .empty).collector.events path = _ := hroom.events_run path
  rw [hflat.recorded_eq] at hevents
  exact ⟨hevents, (restores_outside_iff rfl).2 hflat⟩

theorem fits_of_length_lt (h : (program.attributed p none).length < Limits.documentEvents) :
    program.Fits p := by
  intro path
  rw [recordedUnder, List.length_map]
  exact Nat.lt_of_le_of_lt (List.length_filter_le ..) h

/-- Two blocks one after the other, and a warning that belongs to neither of them. -/
def sample : Program :=
  within ⟨"a.xml", 1⟩ (dispatch (.error ⟨"E080"⟩ "first") done) <|
    dispatch (.warning "outside") <| within ⟨"b.xml", 2⟩ (dispatch (.warning "second") done) done

theorem blocks_nest_iff_flat_sample : sample.Fits (.ofEnvironment []) ∧
    sample.Nests (.ofEnvironment []) := by
  have hfits : sample.Fits (.ofEnvironment []) := fits_of_length_lt (by decide)
  exact ⟨hfits, (blocks_nest_iff_flat _ _ hfits).2.2 ⟨trivial, trivial, trivial⟩⟩

/-- An error of the outer block that is dispatched behind the inner one is collected nowhere. -/
theorem error_behind_inner_block_lost :
    ¬∀ (p : LoggingPreferences) (program : Program), program.Fits p → program.Nests p := by
  intro h
  have hnests := h (.ofEnvironment [])
    (within ⟨"a.xml", 1⟩ (within ⟨"b.xml", 2⟩ done (dispatch (.error ⟨"E080"⟩ "late") done)) done)
    (fits_of_length_lt (by decide))
  have hattributed (late : LogEvent) : recordedUnder "a.xml" [("a.xml", late)] = [late] := by
    rw [recordedUnder_cons, if_pos (Path.order_self _)]
    rfl
  cases (hattributed _).symm.trans (hnests.attributed "a.xml").symm

end Program

end Journal

end ManagementScript
