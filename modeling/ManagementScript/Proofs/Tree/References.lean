import ManagementScript.Xml.Reference

/-!
What the references of a text stand for, as a relation between the written text and its meaning. The
meaning of a text is that of its parts, wherever it is cut outside a reference.
-/

namespace ManagementScript.Xml

/-- The characters that `cs` stands for, each reference resolved. -/
inductive Resolves : List Char → List Char → Prop where
  | nil : Resolves [] []
  | char (hc : c ≠ '&') (h : Resolves cs out) : Resolves (c :: cs) (c :: out)
  | reference (hname : ∀ x ∈ name, x ≠ ';' ∧ x ≠ '&') (hr : referenced 0 name = .ok r)
      (h : Resolves cs out) : Resolves ('&' :: (name ++ ';' :: cs)) (r :: out)

/-- Where a name stands matters only for the error that it has no meaning. -/
theorem referenced_eq_ok (h : referenced offset name = .ok r) (offset' : Nat) :
    referenced offset' name = .ok r := by
  unfold referenced at h ⊢
  split
  · exact h
  · split
    · next he =>
      simp only [he] at h
      exact h
    · next he =>
      simp only [he] at h
      cases h

/-! ### The reader of references -/

/-- An open reference is read up to the end of its name. -/
theorem resolveFrom_name (hname : ∀ x ∈ name, x ≠ ';' ∧ x ≠ '&')
    (hr : referenced (first + 1) (taken.reverse ++ name) = .ok r) (size : Nat)
    (resolved : List Char) (offset : Nat) (cs : List Char) :
    ∃ next, resolveFrom size (some (first, taken)) resolved offset (name ++ ';' :: cs) =
      resolveFrom size none (r :: resolved) next cs := by
  induction name generalizing taken offset with
  | nil =>
    rw [List.append_nil] at hr
    rw [List.nil_append, resolveFrom]
    simp only [BEq.rfl, ↓reduceIte, hr]
    exact ⟨_, rfl⟩
  | cons x name ih =>
    obtain ⟨⟨hend, hopen⟩, hname⟩ := List.forall_mem_cons.1 hname
    rw [List.cons_append, resolveFrom]
    simp only [beq_iff_eq, hend, hopen, ↓reduceIte]
    exact ih hname (by simpa using hr) _

/-- What can be read is read in front of whatever follows. -/
theorem Resolves.resolveFrom_append (h : Resolves cs out) (size : Nat) (resolved : List Char)
    (offset : Nat) (cs' : List Char) : ∃ next,
    resolveFrom size none resolved offset (cs ++ cs') =
      resolveFrom size none (out.reverse ++ resolved) next cs' := by
  induction h generalizing resolved offset with
  | nil => exact ⟨offset, rfl⟩
  | @char c _ _ hc _ ih =>
    obtain ⟨next, hnext⟩ := ih (c :: resolved) (offset + c.utf8Size)
    rw [List.cons_append, resolveFrom]
    simp only [beq_iff_eq, hc, ↓reduceIte, hnext]
    exact ⟨next, by simp⟩
  | @reference name r cs out hname hr _ ih =>
    have hr' : referenced (offset + 1) ([].reverse ++ name) = .ok r := referenced_eq_ok hr _
    obtain ⟨behind, hbehind⟩ := resolveFrom_name hname hr' size resolved (offset + 1) (cs ++ cs')
    obtain ⟨next, hnext⟩ := ih (r :: resolved) behind
    rw [List.cons_append, List.append_assoc, List.cons_append, resolveFrom]
    simp only [BEq.rfl, ↓reduceIte, hbehind, hnext]
    exact ⟨next, by simp⟩

theorem Resolves.resolveFrom_eq (h : Resolves cs out) (size : Nat) (resolved : List Char)
    (offset : Nat) : resolveFrom size none resolved offset cs = .ok (resolved.reverse ++ out) := by
  obtain ⟨next, hnext⟩ := h.resolveFrom_append size resolved offset []
  rw [List.append_nil] at hnext
  simp [hnext, resolveFrom]

/-- Inside a reference, what is read first is the rest of its name. -/
theorem exists_of_resolveFrom (h : resolveFrom size reference resolved offset cs = .ok all) :
    match reference with
    | none => ∃ out, Resolves cs out ∧ all = resolved.reverse ++ out
    | some (first, taken) => ∃ name rest r out, cs = name ++ ';' :: rest ∧
        (∀ x ∈ name, x ≠ ';' ∧ x ≠ '&') ∧
        referenced (first + 1) (taken.reverse ++ name) = .ok r ∧ Resolves rest out ∧
        all = resolved.reverse ++ r :: out := by
  induction cs generalizing reference resolved offset with
  | nil =>
    cases reference with
    | none =>
      cases h
      exact ⟨[], .nil, (List.append_nil _).symm⟩
    | some => cases h
  | cons c cs ih =>
    match reference with
    | none =>
      rw [resolveFrom] at h
      simp only at h ⊢
      split at h
      · next hc =>
        obtain ⟨name, rest, r, out, rfl, hname, hr, hout, rfl⟩ := ih h
        rw [eq_of_beq hc]
        exact ⟨r :: out, .reference hname (referenced_eq_ok hr 0) hout, rfl⟩
      · next hc =>
        obtain ⟨out, hout, rfl⟩ := ih h
        exact ⟨c :: out, .char (fun he => hc (beq_iff_eq.2 he)) hout, by simp⟩
    | some (first, taken) =>
      rw [resolveFrom] at h
      simp only at h ⊢
      split at h
      · next hc =>
        split at h
        · cases h
        next r hr =>
        obtain ⟨out, hout, rfl⟩ := ih h
        rw [eq_of_beq hc]
        exact ⟨[], cs, r, out, rfl, by simp, by simpa using hr, hout, by simp⟩
      next hend =>
      split at h
      · cases h
      next hopen =>
      obtain ⟨name, rest, r, out, rfl, hname, hr, hout, rfl⟩ := ih h
      refine ⟨c :: name, rest, r, out, rfl, ?_, by simpa using hr, hout, rfl⟩
      exact List.forall_mem_cons.2
        ⟨⟨fun he => hend (beq_iff_eq.2 he), fun he => hopen (beq_iff_eq.2 he)⟩, hname⟩

theorem resolveReferences_eq_ok_iff :
    resolveReferences cs = .ok text ↔ Resolves cs text.toList := by
  unfold resolveReferences
  apply Iff.intro
  · intro h
    cases hread : resolveFrom (Text.byteCount cs) none [] 0 cs with
    | error defect =>
      rw [hread] at h
      cases h
    | ok all =>
      rw [hread] at h
      cases h
      obtain ⟨out, hout, rfl⟩ := exists_of_resolveFrom hread
      simpa using hout
  · intro h
    rw [h.resolveFrom_eq]
    simp [Except.map]

/-! ### Cutting a text -/

theorem Resolves.unique (h : Resolves cs out) (h' : Resolves cs out') : out = out' := by
  have he := h.resolveFrom_eq 0 [] 0
  rw [h'.resolveFrom_eq] at he
  cases he
  rfl

theorem Resolves.append (h : Resolves cs out) (h' : Resolves cs' out') :
    Resolves (cs ++ cs') (out ++ out') := by
  induction h with
  | nil => exact h'
  | char hc _ ih => exact .char hc ih
  | reference hname hr _ ih =>
    rw [List.cons_append, List.append_assoc]
    exact .reference hname hr ih

/-- A text that can be read is read like this behind every part of it that can be read. -/
theorem Resolves.behind (h : Resolves cs out) (hall : Resolves (cs ++ cs') all) :
    ∃ out', Resolves cs' out' ∧ all = out ++ out' := by
  have hread := hall.resolveFrom_eq 0 [] 0
  obtain ⟨next, hnext⟩ := h.resolveFrom_append 0 [] 0 cs'
  rw [hnext] at hread
  obtain ⟨out', hout, he⟩ := exists_of_resolveFrom hread
  exact ⟨out', hout, by simpa using he⟩

theorem resolves_self (h : ∀ c ∈ cs, c ≠ '&') : Resolves cs cs := by
  induction cs with
  | nil => exact .nil
  | cons c cs ih =>
    obtain ⟨hc, hcs⟩ := List.forall_mem_cons.1 h
    exact .char hc (ih hcs)

/-- A reference begins in the run and ends behind it. -/
def CutsReference (run rest : List Char) : Prop :=
  ∃ name name', '&' :: name <:+ run ∧ name' ++ [';'] <+: rest ∧ ∀ c ∈ name ++ name', c ≠ ';' ∧ c ≠ '&'

/-- Where no reference is cut, what can be read can be read up to there. -/
theorem Resolves.exists_front (h : Resolves (run ++ rest) all) (hcut : ¬CutsReference run rest) :
    ∃ out, Resolves run out := by
  generalize hw : run ++ rest = written at h
  induction h generalizing run with
  | nil =>
    obtain ⟨rfl, _⟩ := List.append_eq_nil_iff.1 hw
    exact ⟨[], .nil⟩
  | char hc h ih =>
    cases run with
    | nil => exact ⟨[], .nil⟩
    | cons x run =>
      obtain ⟨rfl, hrest⟩ := List.cons.inj hw
      have hcut' : ¬CutsReference run rest := fun ⟨first, last, hrun, hrest⟩ =>
        hcut ⟨first, last, hrun.trans (List.suffix_cons ..), hrest⟩
      obtain ⟨out, hout⟩ := ih hcut' hrest
      exact ⟨x :: out, .char hc hout⟩
  | @reference name r cs out hname hr h ih =>
    cases run with
    | nil => exact ⟨[], .nil⟩
    | cons x run =>
      obtain ⟨rfl, hname'⟩ := List.cons.inj hw
      have hcuts (used : List Char) (hn : name = run ++ used) (hrest : rest = used ++ ';' :: cs) :
          CutsReference ('&' :: run) rest :=
        ⟨run, used, List.suffix_rfl, ⟨cs, by rw [hrest, List.append_assoc]; rfl⟩, hn ▸ hname⟩
      rcases List.append_eq_append_iff.1 hname' with ⟨used, hn, hrest⟩ | ⟨used, hrun, hbehind⟩
      · exact absurd (hcuts used hn hrest) hcut
      · cases used with
        | nil =>
          rw [List.append_nil] at hrun
          exact absurd (hcuts [] (by rw [hrun, List.append_nil]) hbehind.symm) hcut
        | cons y used =>
          obtain ⟨rfl, hcs⟩ := List.cons.inj hbehind
          subst hrun
          have hused : used <:+ '&' :: (name ++ ';' :: used) := ⟨'&' :: (name ++ [';']), by simp⟩
          have hcut' : ¬CutsReference used rest := fun ⟨first, last, hrun, hrest⟩ =>
            hcut ⟨first, last, hrun.trans hused, hrest⟩
          obtain ⟨out, hout⟩ := ih hcut' hcs.symm
          exact ⟨r :: out, .reference hname hr hout⟩

/-- No reference ends in a text without a semicolon. -/
theorem Resolves.before (hall : Resolves (cs ++ cs') all) (hend : ∀ c ∈ cs', c ≠ ';' ∧ c ≠ '&') :
    ∃ out, Resolves cs out ∧ all = out ++ cs' := by
  have hcut : ¬CutsReference cs cs' := by
    rintro ⟨_, name', _, hrest, _⟩
    have hmem : ';' ∈ name' ++ [';'] := List.mem_append_right _ (List.mem_singleton_self _)
    exact (hend ';' (hrest.subset hmem)).1 rfl
  obtain ⟨out, hout⟩ := hall.exists_front hcut
  obtain ⟨out', hout', rfl⟩ := hout.behind hall
  exact ⟨out, hout, by rw [(resolves_self fun c hc => (hend c hc).2).unique hout']⟩

end ManagementScript.Xml
