import Mathlib.Data.List.DropRight
import ManagementScript.Source.LineIndex

/-!
Looking up places. The lines of a text are bisected for the one that an offset lies on; the place that
is found behind a part of the text is told by that part alone.
-/

namespace ManagementScript

/-! ### Offsets of a character -/

/-- The byte offsets of a character in a text that begins at `offset`. -/
def offsetsFrom (mark : Char) : (offset : Nat) → List Char → List Nat
  | _, [] => []
  | offset, c :: cs =>
    let others := offsetsFrom mark (offset + c.utf8Size) cs
    if c = mark then offset :: others else others

theorem toList_offsetsOf (mark : Char) (cs : List Char) :
    (offsetsOf mark cs).toList = offsetsFrom mark 0 cs := by
  have hfold (found : Array Nat) (offset : Nat) :
      (cs.foldl (fun passed c =>
        (if c == mark then passed.1.push passed.2 else passed.1, passed.2 + c.utf8Size))
          (found, offset)).1.toList = found.toList ++ offsetsFrom mark offset cs := by
    induction cs generalizing found offset with
    | nil => exact (List.append_nil _).symm
    | cons c cs ih =>
      rw [List.foldl_cons, ih, offsetsFrom]
      by_cases hc : c = mark
      · simp [hc]
      · simp [hc]
  exact hfold #[] 0

theorem offsetsFrom_append (mark : Char) (offset : Nat) (front back : List Char) :
    offsetsFrom mark offset (front ++ back) =
      offsetsFrom mark offset front ++ offsetsFrom mark (offset + Text.byteCount front) back := by
  induction front generalizing offset with
  | nil => rfl
  | cons c front ih =>
    rw [List.cons_append, offsetsFrom, ih, offsetsFrom, Text.byteCount_cons, Nat.add_assoc]
    split
    · rfl
    · rfl

theorem length_offsetsFrom (mark : Char) (offset : Nat) (cs : List Char) :
    (offsetsFrom mark offset cs).length = cs.count mark := by
  induction cs generalizing offset with
  | nil => rfl
  | cons c cs ih =>
    rw [offsetsFrom, List.count_cons]
    by_cases hc : c = mark
    · simp [hc, ih]
    · simp [hc, ih]

theorem offsetsFrom_of_notMem (h : mark ∉ cs) (offset : Nat) : offsetsFrom mark offset cs = [] := by
  rw [← List.length_eq_zero_iff, length_offsetsFrom, List.count_eq_zero_of_not_mem h]

theorem mem_offsetsFrom (h : x ∈ offsetsFrom mark offset cs) :
    offset ≤ x ∧ x < offset + Text.byteCount cs := by
  induction cs generalizing offset with
  | nil => cases h
  | cons c cs ih =>
    have hpos := c.utf8Size_pos
    rw [Text.byteCount_cons]
    have hmem : x = offset ∨ x ∈ offsetsFrom mark (offset + c.utf8Size) cs := by
      rw [offsetsFrom] at h
      split at h
      · exact List.mem_cons.1 h
      · exact .inr h
    rcases hmem with rfl | hmem
    · omega
    · have hothers := ih hmem
      omega

/-- Where an offset lies within the first character, no line feed is in front of it: that is one byte. -/
theorem le_of_mem_offsetsFrom (hlt : ∀ c ∈ cs.head?, offset < start + c.utf8Size)
    (h : x ∈ offsetsFrom '\n' start cs) : offset ≤ x := by
  cases cs with
  | nil => cases h
  | cons c cs =>
    have hlt := hlt c rfl
    rw [offsetsFrom] at h
    split at h
    · next hc =>
      subst hc
      have hsize : ('\n').utf8Size = 1 := rfl
      rcases List.mem_cons.1 h with rfl | h
      · omega
      · have hrange := mem_offsetsFrom h
        omega
    · have hrange := mem_offsetsFrom h
      omega

/-! ### Bisection -/

/-- Where the first `n` entries are those up to the bound, they are counted. -/
theorem bisect_eq {xs : Array Nat} (hbelow : ∀ i < n, xs.getD i 0 ≤ bound)
    (habove : ∀ i, n ≤ i → i < xs.size → bound < xs.getD i 0) (hlow : low ≤ n) (hhigh : n ≤ high)
    (hsize : high ≤ xs.size) (hsteps : high - low ≤ steps) : bisect xs bound steps low high = n := by
  -- The answer stays between the two ends, which come closer with each step.
  induction steps generalizing low high with
  | zero =>
    rw [bisect]
    omega
  | succ steps ih =>
    simp only [bisect]
    split
    · next hlt =>
      split
      · next hle =>
        have hmiddle : (low + high) / 2 < n := by
          by_contra hge
          exact absurd hle (Nat.not_le.2 (habove _ (Nat.le_of_not_lt hge) (by omega)))
        exact ih hmiddle hhigh hsize (by omega)
      · next hgt =>
        have hmiddle : n ≤ (low + high) / 2 := by
          by_contra hlt
          exact hgt (hbelow _ (Nat.lt_of_not_le hlt))
        exact ih hlow hmiddle (by omega) (by omega)
    · omega

theorem countUpTo_eq {xs : Array Nat} (hxs : xs.toList = below ++ above)
    (hbelow : ∀ x ∈ below, x ≤ bound) (habove : ∀ x ∈ above, bound < x) :
    countUpTo xs bound = below.length := by
  have hsize : xs.size = below.length + above.length := by
    rw [← Array.length_toList, hxs, List.length_append]
  have hentry (i : Nat) : xs.getD i 0 = (below ++ above)[i]?.getD 0 := by
    rw [← hxs, Array.getD_eq_getD_getElem?, Array.getElem?_toList]
  refine bisect_eq (fun i hi => ?_) (fun i hi hlt => ?_) (Nat.zero_le _) (by omega)
    (Nat.le_refl _) (by omega)
  · rw [hentry, List.getElem?_append_left hi, List.getElem?_eq_getElem hi]
    exact hbelow _ (List.getElem_mem hi)
  · have hlt : i - below.length < above.length := by omega
    rw [hentry, List.getElem?_append_right hi, List.getElem?_eq_getElem hlt]
    exact habove _ (List.getElem_mem hlt)

/-! ### Positions -/

/-- The part of the last line that has been read. -/
def lineBehind (front : List Char) : List Char := front.rtakeWhile (· != '\n')

/-- The place behind a part of a text. -/
def Position.behind (front : List Char) : Position :=
  ⟨Text.byteCount front, front.count '\n' + 1, Text.byteCount (lineBehind front) + 1⟩

theorem Position.behind_eq_iff {front front' back back' : List Char}
    (h : front ++ back = front' ++ back') :
    Position.behind front = .behind front' ↔ Text.byteCount front = Text.byteCount front' := by
  apply Iff.intro
  · exact congrArg Position.offset
  · intro hcount
    rw [(Text.append_inj_of_byteCount h hcount).1]

theorem exists_last {c : Char} {cs : List Char} (h : c ∈ cs) :
    ∃ front back, cs = front ++ c :: back ∧ c ∉ back := by
  obtain ⟨back, front, hcs, hback⟩ := List.eq_append_cons_of_mem (List.mem_reverse.2 h)
  refine ⟨front.reverse, back.reverse, ?_, mt List.mem_reverse.1 hback⟩
  rw [← cs.reverse_reverse, hcs]
  simp

theorem lineBehind_of_notMem (h : '\n' ∉ front) : lineBehind front = front := by
  rw [lineBehind, List.rtakeWhile_eq_self_iff]
  intro c hc
  exact bne_iff_ne.2 fun he => h (he ▸ hc)

theorem lineBehind_append (lines : List Char) (h : '\n' ∉ line) :
    lineBehind (lines ++ '\n' :: line) = line := by
  have hline (c : Char) (hc : c ∈ line.reverse) : (c != '\n') = true :=
    bne_iff_ne.2 fun he => h (he ▸ List.mem_reverse.1 hc)
  rw [lineBehind, List.rtakeWhile, List.reverse_append, List.reverse_cons, List.append_assoc,
    List.takeWhile_append_of_pos hline]
  simp

/-- The offset at which a line begins that ends with a part of the text. -/
theorem byteCount_lineBehind (front : List Char) :
    (0 :: (offsetsFrom '\n' 0 front).map (· + 1)).getLast (by simp) + Text.byteCount (lineBehind front) =
      Text.byteCount front := by
  by_cases h : '\n' ∈ front
  · obtain ⟨lines, line, rfl, hline⟩ := exists_last h
    have hstart : offsetsFrom '\n' 0 (lines ++ '\n' :: line) =
        offsetsFrom '\n' 0 lines ++ [Text.byteCount lines] := by
      rw [offsetsFrom_append, offsetsFrom, offsetsFrom_of_notMem hline, Nat.zero_add]
      rfl
    have hsize : ('\n').utf8Size = 1 := rfl
    rw [lineBehind_append lines hline, Text.byteCount_append, Text.byteCount_cons, hsize]
    simp only [hstart, List.map_append, List.map_cons, List.map_nil, ← List.cons_append,
      List.getLast_append_singleton]
    omega
  · simp [offsetsFrom_of_notMem h, lineBehind_of_notMem h]

/-! ### Look-up -/

namespace LineIndex

variable {source : String} {front back : List Char}

theorem toList_starts (h : source.toList = front ++ back) : (ofString source).starts.toList =
    (0 :: (offsetsFrom '\n' 0 front).map (· + 1)) ++
      (offsetsFrom '\n' (Text.byteCount front) back).map (· + 1) := by
  rw [ofString, Array.toList_append, Array.toList_map, toList_offsetsOf, h, offsetsFrom_append,
    List.map_append, Nat.zero_add]
  rfl

/-- Where the line begins that ends with a part of the text. -/
theorem lineStart? (h : source.toList = front ++ back) : (ofString source).starts[front.count '\n']? =
    some (Text.byteCount front - Text.byteCount (lineBehind front)) := by
  have hline := byteCount_lineBehind front
  have hlength := length_offsetsFrom '\n' 0 front
  rw [← Array.getElem?_toList, toList_starts h, List.getElem?_append_left (by simp [hlength]),
    List.getElem?_eq_getElem (by simp [hlength])]
  rw [List.getLast_eq_getElem] at hline
  simp only [List.length_cons, List.length_map, Nat.add_sub_cancel, hlength] at hline
  exact congrArg some (by omega)

/-- The place of an offset within the character behind a part of the text, or at the end of that part. -/
theorem positionAt_within (h : source.toList = front ++ back) (hle : Text.byteCount front ≤ offset)
    (hlt : ∀ c ∈ back.head?, offset < Text.byteCount front + c.utf8Size)
    (hsize : offset ≤ Text.byteCount source.toList) :
    (ofString source).positionAt offset = ⟨offset, front.count '\n' + 1,
      Text.byteCount (lineBehind front) + (offset - Text.byteCount front) + 1⟩ := by
  have hstarts := toList_starts h
  have hline := byteCount_lineBehind front
  have hcount : countUpTo (ofString source).starts offset =
      (0 :: (offsetsFrom '\n' 0 front).map (· + 1)).length := by
    refine countUpTo_eq hstarts (fun x hx => ?_) (fun x hx => ?_)
    · rcases List.mem_cons.1 hx with rfl | hx
      · exact Nat.zero_le _
      · obtain ⟨mark, hmark, rfl⟩ := List.mem_map.1 hx
        have hrange := mem_offsetsFrom hmark
        omega
    · obtain ⟨mark, hmark, rfl⟩ := List.mem_map.1 hx
      have hbehind := le_of_mem_offsetsFrom hlt hmark
      omega
  have hmin : min offset (ofString source).size = offset := by
    refine Nat.min_eq_left ?_
    rwa [ofString, Text.utf8ByteSize_eq]
  have hlast : (ofString source).starts.getD (front.count '\n') 0 =
      Text.byteCount front - Text.byteCount (lineBehind front) := by
    rw [Array.getD_eq_getD_getElem?, lineStart? h, Option.getD_some]
  rw [positionAt, hmin, hcount, List.length_cons, List.length_map, Nat.add_sub_cancel, length_offsetsFrom,
    hlast]
  congr 1
  omega

theorem positionAt_behind (h : source.toList = front ++ back) :
    (ofString source).positionAt (Text.byteCount front) = .behind front := by
  have hsize : Text.byteCount front ≤ Text.byteCount source.toList := by
    rw [h, Text.byteCount_append]
    exact Nat.le_add_right _ _
  rw [positionAt_within h (Nat.le_refl _) (fun c _ => Nat.lt_add_of_pos_right c.utf8Size_pos) hsize,
    Nat.sub_self, Nat.add_zero, Position.behind]

end LineIndex

end ManagementScript
