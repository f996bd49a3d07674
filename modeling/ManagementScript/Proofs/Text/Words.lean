import ManagementScript.Proofs.Tree.Trimming

/-! The words of a text: what stands between its separators. -/

namespace ManagementScript.Text

/-- The text is the words, in order, with separators between them and around them. -/
inductive Separated : List Char → List String → Prop where
  | none (hgap : ∀ c ∈ gap, isSeparator c = true) : Separated gap []
  | word (hgap : ∀ c ∈ gap, isSeparator c = true) (hne : word ≠ [])
      (hword : ∀ c ∈ word, isSeparator c = false) (hend : ∀ c ∈ rest.head?, isSeparator c = true)
      (h : Separated rest ws) : Separated (gap ++ (word ++ rest)) (String.ofList word :: ws)

theorem wordsOnto_gap (found : List String) {gap : List Char} (h : ∀ c ∈ gap, isSeparator c = true)
    (cs : List Char) : wordsOnto found [] (gap ++ cs) = wordsOnto found [] cs := by
  induction gap with
  | nil => rfl
  | cons c gap ih =>
    obtain ⟨hc, hgap⟩ := List.forall_mem_cons.1 h
    rw [List.cons_append, wordsOnto, if_pos hc]
    exact ih hgap

theorem wordsOnto_word (found : List String) {word : List Char} (read : List Char)
    (h : ∀ c ∈ word, isSeparator c = false) (cs : List Char) :
    wordsOnto found read (word ++ cs) = wordsOnto found (word.reverse ++ read) cs := by
  induction word generalizing read with
  | nil => rfl
  | cons c word ih =>
    obtain ⟨hc, hword⟩ := List.forall_mem_cons.1 h
    rw [List.cons_append, wordsOnto, if_neg (by simp [hc]), ih (c :: read) hword, List.reverse_cons,
      List.append_assoc]
    rfl

/-- A word ends at a separator or at the end of the text. -/
theorem wordsOnto_end (found : List String) {read rest : List Char} (hne : read ≠ [])
    (hend : ∀ c ∈ rest.head?, isSeparator c = true) :
    wordsOnto found read rest = wordsOnto (String.ofList read.reverse :: found) [] rest := by
  have hread : read.isEmpty = false := by simpa using hne
  cases rest with
  | nil => simp [wordsOnto, hread]
  | cons c rest => simp [wordsOnto, hread, hend c rfl]

theorem Separated.wordsOnto_eq (h : Separated cs ws) (found : List String) :
    wordsOnto found [] cs = found.reverse ++ ws := by
  induction h generalizing found with
  | none hgap =>
    have hblank := wordsOnto_gap found hgap []
    rw [List.append_nil] at hblank
    rw [hblank, List.append_nil]
    rfl
  | word hgap hne hword hend _ ih =>
    rw [wordsOnto_gap found hgap, wordsOnto_word found [] hword, List.append_nil,
      wordsOnto_end found (by simpa using hne) hend, List.reverse_reverse, ih, List.reverse_cons,
      List.append_assoc]
    rfl

theorem exists_separated (cs : List Char) : ∃ ws, Separated cs ws := by
  induction hn : cs.length using Nat.strong_induction_on generalizing cs with
  | _ n ih =>
    have hgap (c : Char) (hc : c ∈ cs.takeWhile isSeparator) : isSeparator c = true :=
      List.mem_takeWhile_imp hc
    have hcs := @List.takeWhile_append_dropWhile _ isSeparator cs
    have hfirst := head_dropWhile (p := isSeparator) cs
    generalize cs.takeWhile isSeparator = gap at hgap hcs
    generalize cs.dropWhile isSeparator = behind at hcs hfirst
    subst hcs
    cases behind with
    | nil =>
      rw [List.append_nil]
      exact ⟨[], .none hgap⟩
    | cons c behind =>
      have hc : isSeparator c = false := hfirst c rfl
      have hword (x : Char) (hx : x ∈ (c :: behind).takeWhile (!isSeparator ·)) :
          isSeparator x = false := by
        simpa using List.mem_takeWhile_imp hx
      have hrest := List.takeWhile_append_dropWhile (p := (!isSeparator ·)) (l := c :: behind)
      have hend (x : Char) (hx : x ∈ ((c :: behind).dropWhile (!isSeparator ·)).head?) :
          isSeparator x = true := by
        simpa using head_dropWhile (p := (!isSeparator ·)) (c :: behind) x hx
      have hne : (c :: behind).takeWhile (!isSeparator ·) ≠ [] := by
        simp [hc]
      have hpos := List.length_pos_iff.2 hne
      generalize (c :: behind).takeWhile (!isSeparator ·) = word at hne hword hrest hpos
      generalize (c :: behind).dropWhile (!isSeparator ·) = rest at hend hrest
      rw [← hrest] at hn ⊢
      simp only [List.length_append] at hn
      obtain ⟨ws, h⟩ := ih rest.length (by omega) rest rfl
      exact ⟨_, .word hgap hne hword hend h⟩

/-- The words of a text are the one way to separate it. -/
theorem words_eq_iff : words s = ws ↔ Separated s.toList ws := by
  have hwords {ws : List String} (h : Separated s.toList ws) : words s = ws :=
    h.wordsOnto_eq []
  apply Iff.intro
  · rintro rfl
    obtain ⟨ws, h⟩ := exists_separated s.toList
    rwa [hwords h]
  · exact hwords

end ManagementScript.Text
