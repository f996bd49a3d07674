import ManagementScript.Proofs.Source.Bytes
import ManagementScript.Proofs.Tree.Layout

/-!
The place of a tag, found from its end. The last `<` before that end begins the tag if no other one
stands in it, and if the end is the right one: a byte order mark is not counted in it.
-/

namespace ManagementScript.Xml

/-- What stands before the last `<` of the first `limit` bytes of a text, or nothing if there is none. -/
inductive LastOpening (cs : List Char) (limit : Nat) : List Char → Prop where
  | found (h : cs = front ++ '<' :: (seen ++ rest)) (hseen : '<' ∉ seen)
      (hlimit : Text.byteCount (front ++ '<' :: seen) = limit) : LastOpening cs limit front
  | none (h : ∀ seen rest, cs = seen ++ rest → Text.byteCount seen = limit → '<' ∉ seen) :
      LastOpening cs limit []

variable {source : String}

theorem locate_of_last {front : List Char} (h : source.toList = front ++ '<' :: (seen ++ rest))
    (hseen : '<' ∉ seen) :
    locate source (Text.byteCount (front ++ '<' :: seen)) = Text.byteCount front := by
  have hlimit := byteCount_opening front seen
  have hvalid : String.Pos.Raw.isValid source ⟨Text.byteCount (front ++ '<' :: seen)⟩ = true :=
    String.Pos.Raw.isValid_eq_true_iff.2
      (Text.isValid_iff.2 ⟨front ++ '<' :: seen, rest, by simp [h], rfl⟩)
  have hopenings : (offsetsOf '<' source.toList).toList =
      (offsetsFrom '<' 0 front ++ [Text.byteCount front]) ++
        offsetsFrom '<' (Text.byteCount (front ++ '<' :: seen)) rest := by
    have hs : source.toList = (front ++ '<' :: seen) ++ rest := by simp [h]
    rw [toList_offsetsOf, hs, offsetsFrom_append, offsetsFrom_append, offsetsFrom,
      offsetsFrom_of_notMem hseen, Nat.zero_add, Nat.zero_add]
    rfl
  have hcount : countUpTo (offsetsOf '<' source.toList)
      (Text.byteCount (front ++ '<' :: seen) - 1) = (offsetsFrom '<' 0 front).length + 1 := by
    rw [countUpTo_eq hopenings (fun x hx => ?_) (fun x hx => ?_), List.length_append,
      List.length_singleton]
    · rcases List.mem_append.1 hx with hx | hx
      · have hrange := mem_offsetsFrom hx
        omega
      · rw [List.mem_singleton.1 hx]
        omega
    · have hrange := mem_offsetsFrom hx
      omega
  simp only [locate, openingBefore, hvalid, if_true, hcount]
  rw [Array.getD_eq_getD_getElem?, ← Array.getElem?_toList, hopenings, List.append_assoc,
    List.getElem?_append_right (Nat.le_refl _), Nat.sub_self]
  rfl

theorem locate_of_none (hpos : 0 < limit)
    (h : ∀ seen rest, source.toList = seen ++ rest → Text.byteCount seen = limit → '<' ∉ seen) :
    locate source limit = 0 := by
  rw [locate, openingBefore]
  split
  · next hvalid =>
    obtain ⟨seen, rest, hs, rfl⟩ := Text.isValid_iff.1 (String.Pos.Raw.isValid_eq_true_iff.1 hvalid)
    have hopenings : (offsetsOf '<' source.toList).toList =
        [] ++ offsetsFrom '<' (Text.byteCount seen) rest := by
      rw [toList_offsetsOf, hs, offsetsFrom_append, offsetsFrom_of_notMem (h seen rest hs rfl),
        Nat.zero_add]
    rw [countUpTo_eq hopenings nofun (fun x hx => ?_)]
    · rfl
    · have hrange := mem_offsetsFrom hx
      omega
  · rfl

/-- The `<` that is found for an end is the last one before it. -/
theorem exists_lastOpening (source : String) (hpos : 0 < limit) : ∃ front back,
    LastOpening source.toList limit front ∧ source.toList = front ++ back ∧
      locate source limit = Text.byteCount front := by
  by_cases h : ∀ seen rest, source.toList = seen ++ rest → Text.byteCount seen = limit → '<' ∉ seen
  · exact ⟨[], source.toList, .none h, rfl, locate_of_none hpos h⟩
  · simp only [not_forall, not_not] at h
    obtain ⟨seen, rest, hs, rfl, hmem⟩ := h
    obtain ⟨front, seen, rfl, hseen⟩ := exists_last hmem
    rw [List.append_assoc] at hs
    exact ⟨front, _, .found hs hseen rfl, hs, locate_of_last hs hseen⟩

/-- Where the end of a tag is told without the bytes of `mark`, with which the text begins, the tag is
found if the `<` that begins it is the last one before those bytes from its end. -/
theorem locate_eq_iff (h : source.toList = mark ++ (front ++ '<' :: (inside ++ rest))) :
    locate source (Text.byteCount (front ++ '<' :: inside)) = Text.byteCount (mark ++ front) ↔
      ∃ seen unseen, inside = seen ++ unseen ∧ Text.byteCount unseen = Text.byteCount mark ∧
        '<' ∉ seen := by
  rw [← List.append_assoc] at h
  apply Iff.intro
  · intro heq
    obtain ⟨found, back, hlast, hs, hfound⟩ :=
      exists_lastOpening source (byteCount_opening_pos front inside)
    obtain ⟨rfl, -⟩ := Text.append_inj_of_byteCount (hs.symm.trans h) (hfound.symm.trans heq)
    generalize hf : mark ++ front = found at hlast h
    cases hlast with
    | @found _ seen rest' hs hseen hcount =>
      have hbehind : seen ++ rest' = inside ++ rest := by
        rw [h] at hs
        simpa using hs.symm
      rw [← hf, byteCount_opening, byteCount_opening, Text.byteCount_append] at hcount
      -- The search ends as many bytes before the end of the tag as the mark has.
      obtain ⟨unseen, rfl⟩ := Text.exists_append_of_byteCount hbehind (by omega)
      rw [Text.byteCount_append] at hcount
      exact ⟨seen, unseen, rfl, by omega, hseen⟩
    | none hnone =>
      obtain ⟨rfl, rfl⟩ := List.append_eq_nil_iff.1 hf
      exact absurd (List.mem_cons_self ..) (hnone ('<' :: inside) rest h rfl)
  · rintro ⟨seen, unseen, rfl, hunseen, hseen⟩
    have hend : Text.byteCount (front ++ '<' :: (seen ++ unseen)) =
        Text.byteCount ((mark ++ front) ++ '<' :: seen) := by
      rw [byteCount_opening, byteCount_opening, Text.byteCount_append, Text.byteCount_append]
      omega
    rw [hend]
    exact locate_of_last (by rw [h, List.append_assoc seen]) hseen

end ManagementScript.Xml
