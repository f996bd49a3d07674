import ManagementScript.Document.Store
import ManagementScript.Proofs.Result

/-!
What is written to a store is read back: the path that a file was written to leads to that file.
-/

namespace ManagementScript.Store

/-- Where a path leads in `s`, something is in `s'` as well. -/
structure Extends (s s' : Store) : Prop where
  directories : ∀ names, s.isDirectory names = true → s'.isDirectory names = true
  files : ∀ names, (s.file? names).isSome = true → (s'.file? names).isSome = true

theorem isDirectory_addDirectory_of (h : isDirectory s names = true) (added : List String) :
    (s.addDirectory added).isDirectory names = true := by
  simp only [isDirectory, addDirectory, Bool.or_eq_true, List.contains_iff_mem, List.mem_append] at h ⊢
  exact h.imp_right .inr

theorem extends_addFile (s : Store) (names : List String) (bytes : ByteArray) :
    s.Extends (s.addFile names bytes) where
  directories := fun _ h => isDirectory_addDirectory_of h names.dropLast
  files := by
    intro others h
    obtain ⟨file, hmem, he⟩ := List.lookup_isSome_iff.1 h
    refine List.lookup_isSome_iff.2 ?_
    by_cases hsame : file.1 = names
    · exact ⟨(names, bytes), List.mem_cons_self .., hsame ▸ he⟩
    · exact ⟨file, List.mem_cons_of_mem _ (List.mem_filter.2 ⟨hmem, bne_iff_ne.2 hsame⟩), he⟩

theorem Extends.enter {s s' : Store} (h : s.Extends s') (hp : s.enter names part = .ok place) :
    s'.enter names part = .ok place := by
  rw [Store.enter] at hp ⊢
  split at hp
  · cases hp
  next hsize =>
  rw [if_neg hsize]
  dsimp only at hp ⊢
  split at hp
  · next hthere =>
    have hthere' : (s'.isDirectory (names ++ [part]) || (s'.file? (names ++ [part])).isSome) = true := by
      rw [Bool.or_eq_true] at hthere ⊢
      exact hthere.imp (h.directories _) (h.files _)
    rw [if_pos hthere']
    exact hp
  · cases hp

theorem Extends.step {s s' : Store} (h : s.Extends s') (hp : s.step start part = .ok place) :
    s'.step start part = .ok place := by
  cases start with
  | root => exact hp
  | reached names =>
    simp only [Store.step] at hp ⊢
    split at hp
    · cases hp
    next hdir =>
    have hdir' : s'.isDirectory names = true := h.directories _ (by simpa using hdir)
    simp only [hdir', Bool.not_true, Bool.false_eq_true, ↓reduceIte]
    split at hp
    · next hhere => simpa only [hhere, ↓reduceIte] using hp
    next hhere =>
    rw [if_neg hhere]
    split at hp
    · next hup => simpa only [hup, ↓reduceIte] using hp
    next hup =>
    rw [if_neg hup]
    exact h.enter hp

theorem Extends.walk {s s' : Store} (h : s.Extends s') {parts : List String}
    (hp : parts.foldlM s.step start = .ok place) : parts.foldlM s'.step start = .ok place := by
  induction parts generalizing start with
  | nil => exact hp
  | cons part parts ih =>
    rw [List.foldlM_cons] at hp ⊢
    obtain ⟨next, hnext, hrest⟩ := bind_eq_ok_iff.1 hp
    exact bind_eq_ok_iff.2 ⟨next, h.step hnext, ih hrest⟩

theorem follow_eq (s : Store) (parts : List String) : s.follow parts =
    if parts.head? = some "" then parts.tail.foldlM s.step .root
    else parts.foldlM s.step (.reached []) := by
  cases parts with
  | nil => rfl
  | cons part parts =>
    by_cases hpart : part = ""
    · subst hpart
      rfl
    · have hhead : (part :: parts).head? ≠ some "" := fun h => hpart (Option.some.inj h)
      rw [if_neg hhead, follow]
      intro _ h
      cases h
      exact hpart rfl

theorem Extends.follow {s s' : Store} (h : s.Extends s') {parts : List String}
    (hp : s.follow parts = .ok place) : s'.follow parts = .ok place := by
  rw [follow_eq] at hp ⊢
  split
  · next hroot =>
    rw [if_pos hroot] at hp
    exact h.walk hp
  · next hroot =>
    rw [if_neg hroot] at hp
    exact h.walk hp

/-- The last part of a path leads on from where the others lead. -/
theorem follow_concat (s : Store) (parts : List String) (hname : name ≠ "") :
    s.follow (parts ++ [name]) = (do s.step (← s.follow parts) name) := by
  cases parts with
  | nil =>
    have hhead : [name].head? ≠ some "" := fun h => hname (Option.some.inj h)
    rw [List.nil_append, follow_eq, if_neg hhead]
    exact bind_pure _
  | cons part parts =>
    rw [follow_eq, follow_eq]
    by_cases hroot : part = ""
    · subst hroot
      simp [List.foldlM_append]
    · simp [List.foldlM_append, hroot]

theorem namedParts_concat (hname : name ≠ "") (parts : List String) :
    namedParts (parts ++ [name]) = parts ++ [name] := by
  simp [namedParts, hname]

theorem step_of_directory {s : Store} (hdir : s.isDirectory names = true)
    (hname : name ∉ ["", ".", ".."]) : s.step (.reached names) name = s.enter names name := by
  simp only [List.mem_cons, List.not_mem_nil, or_false, not_or] at hname
  simp [step, hdir, hname]

theorem enter_addFile (s : Store) (names : List String) (bytes : ByteArray)
    (hsize : name.utf8ByteSize ≤ nameSize) :
    (s.addFile (names ++ [name]) bytes).enter names name = .ok (.reached (names ++ [name])) := by
  simp [enter, Nat.not_lt.2 hsize, file?_addFile]

theorem writeIn_eq_ok {s s' : Store} (h : s.writeIn place name closed bytes = .ok s') :
    ∃ names, place = .reached names ∧ s.isDirectory names = true ∧ closed = false ∧ name ≠ "." ∧
      name ≠ ".." ∧ name.utf8ByteSize ≤ nameSize ∧ s' = s.addFile (names ++ [name]) bytes := by
  cases place with
  | root => cases h
  | reached names =>
    simp only [writeIn] at h
    split at h
    · cases h
    next hdir =>
    split at h
    · cases h
    next hclosed =>
    split at h
    · cases h
    next hsize =>
    split at h
    · cases h
    cases h
    simp only [Bool.or_eq_true, beq_iff_eq, not_or, Bool.not_eq_true] at hclosed
    obtain ⟨⟨hclosed, hhere⟩, hup⟩ := hclosed
    exact ⟨names, rfl, by simpa using hdir, hclosed, hhere, hup, Nat.le_of_not_lt hsize, rfl⟩

/-- What is written is a new file in a directory that is there already. -/
theorem write_eq_ok {s s' : Store} (h : s.write path bytes = .ok s') :
    isPath path = true ∧ ∃ parts name names, Path.parts path = parts ++ [name] ∧
      name ∉ ["", ".", ".."] ∧ name.utf8ByteSize ≤ nameSize ∧
      s.follow parts = .ok (.reached names) ∧ s.isDirectory names = true ∧
      s' = s.addFile (names ++ [name]) bytes := by
  rw [write] at h
  by_cases hlong : pathSize < path.utf8ByteSize
  · rw [if_pos hlong] at h
    obtain ⟨_, hthrow, _⟩ := bind_eq_ok_iff.1 h
    cases hthrow
  by_cases hpath : isPath path = true
  · simp only [hlong, hpath, Bool.not_true, Bool.false_eq_true, ↓reduceIte] at h
    obtain ⟨place, hfollow, hwrite⟩ := bind_eq_ok_iff.1 h
    obtain ⟨names, rfl, hdir, hclosed, hhere, hup, hsize, hs⟩ := writeIn_eq_ok hwrite
    refine ⟨hpath, ?_⟩
    rcases List.eq_nil_or_concat (Path.parts path) with hnil | ⟨parts, name, hparts⟩
    · rw [hnil] at hclosed
      cases hclosed
    rw [List.concat_eq_append] at hparts
    rw [hparts, List.getLastD_concat] at hclosed
    have hblank : name ≠ "" := beq_eq_false_iff_ne.1 hclosed
    rw [hparts, namedParts_concat hblank, List.getLastD_concat] at hhere hup hsize hs
    rw [hparts, namedParts_concat hblank, List.dropLast_concat] at hfollow
    exact ⟨parts, name, names, hparts, by simp [hblank, hhere, hup], hsize, hfollow, hdir, hs⟩
  · simp only [hlong, hpath, Bool.not_false, ↓reduceIte] at h
    obtain ⟨_, hthrow, _⟩ := bind_eq_ok_iff.1 h
    cases hthrow

theorem entry_of_write {s s' : Store} (h : s.write path bytes = .ok s') :
    ∃ place, s'.entry path = .file place bytes := by
  obtain ⟨hpath, parts, name, names, hparts, hname, hsize, hfollow, hdir, rfl⟩ := write_eq_ok h
  have hextends := s.extends_addFile (names ++ [name]) bytes
  have hblank : name ≠ "" := fun he => hname (he ▸ List.mem_cons_self ..)
  have hentry : (s.addFile (names ++ [name]) bytes).follow (Path.parts path) =
      .ok (.reached (names ++ [name])) := by
    rw [hparts, follow_concat _ _ hblank, hextends.follow hfollow]
    exact (step_of_directory (hextends.directories _ hdir) hname).trans (enter_addFile s names bytes hsize)
  refine ⟨(s.addFile (names ++ [name]) bytes).pathOf (names ++ [name]), ?_⟩
  rw [entry, hpath, hentry]
  simp [file?_addFile]

end ManagementScript.Store
