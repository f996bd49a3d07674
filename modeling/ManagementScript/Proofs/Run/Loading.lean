import Mathlib.Data.List.Induction
import ManagementScript.Proofs.Run.Truncation

/-!
A run over a file is a run over its text behind checks of the file. They come in a fixed order, and
what they let through is compiled as if it had come without a file.
-/

namespace ManagementScript

/-- The lines of a text are those that are ended and one more if something follows them. -/
theorem countLines_eq (text : String) : countLines text =
    text.toList.count '\n' + if text.toList.getLast? ∈ [none, some '\n'] then 0 else 1 := by
  have hfold (cs : List Char) :
      cs.foldl (fun counted c => if c == '\n' then (counted.1 + 1, false) else (counted.1, true))
        (0, false) = (cs.count '\n', decide (cs.getLast? ∉ [none, some '\n'])) := by
    induction cs using List.reverseRecOn with
    | nil => rfl
    | append_singleton cs c ih =>
      rw [List.foldl_append, ih]
      by_cases hc : c = '\n' <;> simp [hc]
  rw [countLines, String.foldl_eq_foldl_toList]
  refine (congrArg (fun counted : Nat × Bool => if counted.2 then counted.1 + 1 else counted.1)
    (hfold text.toList)).trans ?_
  by_cases hlast : text.toList.getLast? ∈ [none, some '\n'] <;> simp [hlast]

theorem fromUTF8?_eq_some_iff {bytes : ByteArray} {text : String} :
    String.fromUTF8? bytes = some text ↔ text.toUTF8 = bytes := by
  rw [String.fromUTF8?]
  apply Iff.intro
  · intro h
    split at h
    · cases h
      rfl
    · cases h
  · rintro rfl
    exact dif_pos text.isValidUTF8

theorem map_eq_ok_iff {x : Except ε α} {f : α → β} :
    x.map f = .ok b ↔ ∃ a, x = .ok a ∧ b = f a := by
  cases x with
  | error e => simp [Except.map]
  | ok a => simp [Except.map, eq_comm]

theorem map_eq_error_iff {x : Except ε α} {f : α → β} : x.map f = .error e ↔ x = .error e := by
  cases x with
  | error e => simp [Except.map]
  | ok a => simp [Except.map]

namespace Logged

/-- The work comes to the result, whatever was emitted before. -/
def Ends (work : Logged ε α) (result : Except ε α) : Prop := ∀ entered, (work entered).1 = result

theorem ends_pure (a : α) : (pure a : Logged ε α).Ends (.ok a) := fun _ => rfl

theorem ends_emit (event : LogEvent) : (emit event : Logged ε Unit).Ends (.ok ()) := fun _ => rfl

theorem ends_refuse (e : ε) (event : LogEvent) : (refuse e event : Logged ε α).Ends (.error e) :=
  fun _ => rfl

theorem Ends.bind {work : Logged ε α} {f : α → Logged ε β} (h : work.Ends (.ok a))
    (hf : (f a).Ends result) : (work >>= f).Ends result := by
  intro entered
  rw [stateful_bind_apply]
  have hwork := h entered
  generalize work entered = moved at hwork
  obtain ⟨_, entered'⟩ := moved
  cases hwork
  exact hf entered'

theorem Ends.bind_error {work : Logged ε α} {f : α → Logged ε β} (h : work.Ends (.error e)) :
    (work >>= f).Ends (.error e) := by
  intro entered
  rw [stateful_bind_apply]
  have hwork := h entered
  generalize work entered = moved at hwork
  obtain ⟨_, entered'⟩ := moved
  cases hwork
  rfl

theorem Ends.adapt {work : Logged ε α} (h : work.Ends result) (f : ε → ε') :
    Ends (ExceptT.adapt f work : Logged ε' α) (result.mapError f) :=
  fun entered => congrArg (·.mapError f) (h entered)

theorem Ends.outcome {work : Logged ε α} (h : work.Ends result) : work.outcome.1 = result := h #[]

end Logged

namespace Document

open Logged

/-- A file of this size may be read from this place. -/
structure Admissible (p : DocumentPreferences) (place : String) (size : Nat) : Prop where
  filled : 1 ≤ size
  fits : size ≤ 10485760
  extension : p.requireXmlExtension = true → Metadata.extension? ⟨place, size, 0⟩ = some "xml"

/-- Why a file may not be read: the first thing that is wrong with it. -/
inductive Inadmissible (p : DocumentPreferences) (place : String) (size : Nat) : LoadError → Prop where
  | tooLarge (h : 10485760 < size) : Inadmissible p place size (.fileTooLarge size 10485760)
  | empty (h : size = 0) : Inadmissible p place size .emptyFile
  | extension (hf : 1 ≤ size) (hs : size ≤ 10485760) (hr : p.requireXmlExtension = true)
      (hx : Metadata.extension? ⟨place, size, 0⟩ ≠ some "xml") :
      Inadmissible p place size (.invalidExtension (Metadata.extension? ⟨place, size, 0⟩))

/-- The error that a file can not be read. -/
def readError (place : String) : AccessError → LoadError
  | .permissionDenied => .permissionDenied place
  | e => .storageFailure s!"Failed to read file '{place}': {e.message}"

/-- The path leads to a file that may be loaded, and `d` is what it has. -/
structure Loads (p : DocumentPreferences) (path : String) (entry : Entry) (d : Document) : Prop where
  path : path ≠ ""
  entry : entry = .file d.metadata.path d.source.toUTF8
  size : d.metadata.size = d.source.utf8ByteSize
  lineCount : d.metadata.lineCount = countLines d.source
  admissible : Admissible p d.metadata.path d.metadata.size
  lines : d.metadata.lineCount ≤ 200000

/-- Why the path leads to nothing that may be loaded: the first thing that is wrong. -/
inductive Refused (p : DocumentPreferences) : (path : String) → Entry → LoadError → Prop where
  | emptyPath : Refused p "" entry (.invalidPath "")
  | missing (h : path ≠ "") : Refused p path .missing (.fileNotFound path)
  | directory (h : path ≠ "") : Refused p path .directory (.invalidPath path)
  | file (h : path ≠ "") (hf : Inadmissible p place bytes.size e) :
      Refused p path (.file place bytes) e
  | encoding (h : path ≠ "") (ha : Admissible p place bytes.size)
      (hb : ∀ text : String, text.toUTF8 ≠ bytes) :
      Refused p path (.file place bytes) (.invalidEncoding place)
  | lines (h : path ≠ "") (ha : Admissible p place text.utf8ByteSize)
      (hl : 200000 < countLines text) :
      Refused p path (.file place text.toUTF8) (.tooManyLines (countLines text) 200000)
  | unreadable (h : path ≠ "") (hf : Inadmissible p place size e) :
      Refused p path (.unreadable place size problem) e
  | unread (h : path ≠ "") (ha : Admissible p place size) :
      Refused p path (.unreadable place size problem) (readError place problem)

variable {p : DocumentPreferences} {path : String} {entry : Entry}

theorem isXml_iff {m : Metadata} : m.isXml = true ↔ m.extension? = some "xml" := beq_iff_eq

theorem admissible_or_inadmissible (p : DocumentPreferences) (place : String) (size : Nat) :
    Admissible p place size ∨ ∃ e, Inadmissible p place size e := by
  by_cases hlarge : 10485760 < size
  · exact .inr ⟨_, .tooLarge hlarge⟩
  by_cases hempty : size = 0
  · exact .inr ⟨_, .empty hempty⟩
  have hfilled : 1 ≤ size := Nat.one_le_iff_ne_zero.2 hempty
  have hsize : size ≤ 10485760 := Nat.le_of_not_lt hlarge
  by_cases hx : p.requireXmlExtension = true → Metadata.extension? ⟨place, size, 0⟩ = some "xml"
  · exact .inl ⟨hfilled, hsize, hx⟩
  · obtain ⟨hr, hx⟩ := Classical.not_imp.1 hx
    exact .inr ⟨_, .extension hfilled hsize hr hx⟩

theorem loads_or_refused (p : DocumentPreferences) (path : String) (entry : Entry) :
    (∃ d, Loads p path entry d) ∨ ∃ e, Refused p path entry e := by
  by_cases hpath : path = ""
  · subst hpath
    exact .inr ⟨_, .emptyPath⟩
  cases entry with
  | missing => exact .inr ⟨_, .missing hpath⟩
  | directory => exact .inr ⟨_, .directory hpath⟩
  | unreadable place size problem =>
    rcases admissible_or_inadmissible p place size with ha | ⟨e, hf⟩
    · exact .inr ⟨_, .unread hpath ha⟩
    · exact .inr ⟨e, .unreadable hpath hf⟩
  | file place bytes =>
    rcases admissible_or_inadmissible p place bytes.size with ha | ⟨e, hf⟩
    · by_cases hb : ∃ text : String, text.toUTF8 = bytes
      · obtain ⟨text, rfl⟩ := hb
        by_cases hl : 200000 < countLines text
        · exact .inr ⟨_, .lines hpath ha hl⟩
        · exact .inl ⟨⟨text, place, text.utf8ByteSize, countLines text⟩, hpath, rfl, rfl, rfl, ha,
            Nat.le_of_not_lt hl⟩
      · exact .inr ⟨_, .encoding hpath ha fun text h => hb ⟨text, h⟩⟩
    · exact .inr ⟨e, .file hpath hf⟩

/-! ### One check behind the other -/

theorem ends_requireAdmissible {m : Metadata} (h : Admissible p m.path m.size) :
    (requireAdmissible p path m).Ends (.ok ()) := by
  have hx : ¬ (p.requireXmlExtension && !m.isXml) = true := by
    rw [Bool.and_eq_true, Bool.not_eq_true', ← Bool.not_eq_true, isXml_iff]
    exact fun hboth => hboth.2 (h.extension hboth.1)
  have hsmall : ¬ Limits.documentSize < m.size := Nat.not_lt.2 h.fits
  rw [requireAdmissible, if_neg hsmall, if_neg (Nat.one_le_iff_ne_zero.1 h.filled), if_neg hx]
  exact ends_pure ()

theorem ends_requireAdmissible_error {m : Metadata} (h : Inadmissible p m.path m.size e) :
    (requireAdmissible p path m).Ends (.error e) := by
  cases h with
  | tooLarge h =>
    have hlarge : Limits.documentSize < m.size := h
    rw [requireAdmissible, if_pos hlarge]
    exact ends_refuse _ _
  | empty h =>
    have hsmall : ¬ Limits.documentSize < m.size := h ▸ Nat.not_lt_zero _
    rw [requireAdmissible, if_neg hsmall, if_pos h]
    exact ends_refuse _ _
  | extension hf hs hr hx =>
    have hnot : (p.requireXmlExtension && !m.isXml) = true := by
      rw [Bool.and_eq_true, Bool.not_eq_true', ← Bool.not_eq_true, isXml_iff]
      exact ⟨hr, hx⟩
    have hsmall : ¬ Limits.documentSize < m.size := Nat.not_lt.2 hs
    rw [requireAdmissible, if_neg hsmall, if_neg (Nat.one_le_iff_ne_zero.1 hf), if_pos hnot]
    exact ends_refuse _ _

theorem ends_sourceOf (path place text : String) :
    (sourceOf path (.file place text.toUTF8)).Ends (.ok text) := by
  simp only [sourceOf, fromUTF8?_eq_some_iff.2 rfl]
  exact ends_pure text

theorem ends_sourceOf_encoding (hb : ∀ text : String, text.toUTF8 ≠ bytes) :
    (sourceOf path (.file place bytes)).Ends (.error (.invalidEncoding place)) := by
  have hnone : String.fromUTF8? bytes = none :=
    Option.eq_none_iff_forall_ne_some.2 fun text h => hb text (fromUTF8?_eq_some_iff.1 h)
  simp only [sourceOf, hnone]
  exact ends_refuse _ _

theorem ends_sourceOf_unreadable (path place : String) (size : Nat) (problem : AccessError) :
    (sourceOf path (.unreadable place size problem)).Ends (.error (readError place problem)) := by
  cases problem <;> exact ends_refuse _ _

theorem ends_load_inadmissible (h : path ≠ "") (hfile : (fileOf path entry).Ends (.ok (place, size)))
    (hf : Inadmissible p place size e) : (load p path entry elapsed).Ends (.error e) := by
  refine (ends_emit _).bind ?_
  rw [if_neg (by simpa using h)]
  refine hfile.bind ((ends_emit _).bind ?_)
  exact (ends_requireAdmissible_error hf).bind_error

theorem ends_load_unread (h : path ≠ "") (hfile : (fileOf path entry).Ends (.ok (place, size)))
    (ha : Admissible p place size) (hs : (sourceOf path entry).Ends (.error e)) :
    (load p path entry elapsed).Ends (.error e) := by
  refine (ends_emit _).bind ?_
  rw [if_neg (by simpa using h)]
  refine hfile.bind ((ends_emit _).bind ?_)
  exact (ends_requireAdmissible ha).bind hs.bind_error

theorem ends_load_read (elapsed : Nat) (h : path ≠ "")
    (hfile : (fileOf path entry).Ends (.ok (place, size))) (ha : Admissible p place size)
    (hs : (sourceOf path entry).Ends (.ok text)) :
    (load p path entry elapsed).Ends (if Limits.documentLines < countLines text then
      .error (.tooManyLines (countLines text) Limits.documentLines)
      else .ok ⟨text, place, size, countLines text⟩) := by
  refine (ends_emit _).bind ?_
  rw [if_neg (by simpa using h)]
  refine hfile.bind ((ends_emit _).bind ?_)
  refine (ends_requireAdmissible ha).bind (hs.bind ?_)
  by_cases hl : Limits.documentLines < countLines text
  · simp only [hl, ↓reduceIte]
    exact (ends_refuse _ _).bind_error
  · simp only [hl, ↓reduceIte]
    exact (ends_emit _).bind (ends_pure _)

theorem Loads.ends_load (h : Loads p path entry d) : (load p path entry elapsed).Ends (.ok d) := by
  obtain ⟨source, place, size, lineCount⟩ := d
  obtain ⟨hpath, rfl, hsize, hcount, ha, hl⟩ := h
  obtain rfl : size = source.utf8ByteSize := hsize
  obtain rfl : lineCount = countLines source := hcount
  have hread := ends_load_read elapsed hpath (ends_pure _) ha
    (ends_sourceOf path place source)
  have hfew : ¬ Limits.documentLines < countLines source := Nat.not_lt.2 hl
  rwa [if_neg hfew] at hread

theorem Refused.ends_load (h : Refused p path entry e) :
    (load p path entry elapsed).Ends (.error e) := by
  cases h with
  | emptyPath =>
    refine (ends_emit _).bind ?_
    exact (ends_refuse _ _).bind_error
  | missing h | directory h =>
    refine (ends_emit _).bind ?_
    rw [if_neg (by simpa using h)]
    exact Ends.bind_error (ends_refuse _ _)
  | file h hf | unreadable h hf => exact ends_load_inadmissible h (ends_pure _) hf
  | encoding h ha hb => exact ends_load_unread h (ends_pure _) ha (ends_sourceOf_encoding hb)
  | unread h ha => exact ends_load_unread h (ends_pure _) ha (ends_sourceOf_unreadable _ _ _ _)
  | lines h ha hl =>
    have hread := ends_load_read elapsed h (ends_pure _) ha (ends_sourceOf path _ _)
    have hmany : Limits.documentLines < _ := hl
    rwa [if_pos hmany] at hread

end Document

namespace Run

open Logged Document

theorem ends_compile (o : RunOptions) (source : String) :
    (compile o source).Ends (compile o source #[]).1 := by
  intro entered
  rw [compile_apply, compile_apply]

/-- A result does not depend on where the text came from, but for what is known about the file. -/
theorem ends_complete (r : Request) (name source : String) (metadata : Option Metadata) :
    (complete r name source metadata).Ends
      ((ofSource r source).outcome.1.map ({ · with metadata })) := by
  have hcompile := ends_compile r.options source
  rw [ofSource_apply]
  cases hresult : (compile r.options source #[]).1 with
  | error e =>
    rw [hresult] at hcompile
    exact hcompile.bind_error
  | ok x =>
    rw [hresult] at hcompile
    exact hcompile.bind ((ends_emit _).bind (ends_pure _))

theorem outcome_of_loads {r : Request} (h : Loads r.options.document path entry d) :
    (ofEntry r path entry).outcome.1 =
      (ofSource r d.source).outcome.1.map ({ · with metadata := some d.metadata }) := by
  refine Ends.outcome (.bind (ends_emit _) (.bind (h.ends_load.adapt _) ?_))
  exact ends_complete r path d.source (some d.metadata)

theorem outcome_of_refused {r : Request} (h : Refused r.options.document path entry e) :
    (ofEntry r path entry).outcome.1 = .error (.loading e) :=
  Ends.outcome (.bind (ends_emit _) (.bind_error (h.ends_load.adapt _)))

end Run

end ManagementScript
