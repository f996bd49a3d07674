import ManagementScript.Proofs.Tree.CharacterData

/-!
Runs of character data that stand for nothing but white space. They may be cut into parts and put together
again, as long as no reference is cut.
-/

namespace ManagementScript

theorem Text.trim_eq_nil_iff {p : Char → Bool} {cs : List Char} :
    trim p cs = [] ↔ ∀ c ∈ cs, p c = true := by
  apply Iff.intro
  · intro h
    obtain ⟨front, inner, back, rfl, hf, hb, hi⟩ := exists_framed p cs
    rw [trim_eq hf hb hi] at h
    rw [h, List.nil_append]
    exact List.forall_mem_append.2 ⟨hf, hb⟩
  · intro h
    rw [trim, List.dropWhile_eq_nil_iff.2 h]
    rfl

theorem Text.trimmed_eq_empty_iff {s : String} :
    trimmed s = "" ↔ ∀ c ∈ s.toList, isWhiteSpace c = true := by
  rw [trimmed, ← trim_eq_nil_iff, ← String.ofList_nil, String.ofList_inj]

namespace Xml

/-- The run stands for nothing but white space. -/
def IsBlankRun (run : List Char) : Prop :=
  ∃ out, Resolves run out ∧ ∀ c ∈ out, Text.isWhiteSpace c = true

theorem isBlankRun_nil : IsBlankRun [] := ⟨[], .nil, List.forall_mem_nil _⟩

theorem IsBlankRun.append (h : IsBlankRun run) (h' : IsBlankRun run') : IsBlankRun (run ++ run') := by
  obtain ⟨out, hr, hb⟩ := h
  obtain ⟨out', hr', hb'⟩ := h'
  exact ⟨out ++ out', hr.append hr', List.forall_mem_append.2 ⟨hb, hb'⟩⟩

/-- Where a part of a blank run has a meaning, the part and what is behind it are blank. -/
theorem IsBlankRun.split (h : IsBlankRun (run ++ run')) (hr : Resolves run out) :
    IsBlankRun run ∧ IsBlankRun run' := by
  obtain ⟨all, hall, hb⟩ := h
  obtain ⟨out', hr', rfl⟩ := hr.behind hall
  obtain ⟨hb, hb'⟩ := List.forall_mem_append.1 hb
  exact ⟨⟨out, hr, hb⟩, ⟨out', hr', hb'⟩⟩

theorem isBlankRun_of_isBlank (h : ∀ c ∈ run, Text.isBlank c = true) : IsBlankRun run :=
  ⟨run, resolves_self fun c hc => (ne_of_isBlank (h c hc)).2, fun c hc =>
    Text.isWhiteSpace_of_isSeparator (Text.isSeparator_of_isBlank (h c hc))⟩

theorem isBlankRun_leading (run : List Char) : IsBlankRun (leadingBlanks run) :=
  isBlankRun_of_isBlank fun _ => blank_of_mem_leading

theorem isBlankRun_trailing (run : List Char) : IsBlankRun (trailingBlanks run) :=
  isBlankRun_of_isBlank fun _ => blank_of_mem_trailing

theorem resolves_trim_iff : (∃ out, Resolves (Text.trim Text.isBlank run) out) ↔
    ∃ out, Resolves run out := by
  apply Iff.intro
  · intro h
    obtain ⟨inner, hinner⟩ := h
    obtain ⟨_, hlead, _⟩ := isBlankRun_leading run
    obtain ⟨_, htrail, _⟩ := isBlankRun_trailing run
    have hall := hlead.append (hinner.append htrail)
    rw [← run_eq run] at hall
    exact ⟨_, hall⟩
  · intro h
    obtain ⟨_, hr⟩ := h
    obtain ⟨inner, hinner, _⟩ := hr.framed
    exact ⟨inner, hinner⟩

theorem isBlankRun_trim_iff : IsBlankRun (Text.trim Text.isBlank run) ↔ IsBlankRun run := by
  apply Iff.intro
  · intro h
    have hall := (isBlankRun_leading run).append (h.append (isBlankRun_trailing run))
    rwa [← run_eq run] at hall
  · intro h
    obtain ⟨_, hr, hb⟩ := h
    obtain ⟨inner, hinner, rfl⟩ := hr.framed
    exact ⟨inner, hinner, fun c hc => hb c (by simp [hc])⟩

theorem isBlankRun_iff : IsBlankRun raw ↔
    ∃ content, resolveReferences raw = .ok content ∧ Text.trimmed content = "" := by
  simp only [resolveReferences_eq_ok_iff, Text.trimmed_eq_empty_iff]
  apply Iff.intro
  · intro h
    obtain ⟨out, hr, hb⟩ := h
    exact ⟨String.ofList out, by simpa using hr, by simpa using hb⟩
  · intro h
    obtain ⟨content, hr, hb⟩ := h
    exact ⟨_, hr, hb⟩

end Xml

end ManagementScript
