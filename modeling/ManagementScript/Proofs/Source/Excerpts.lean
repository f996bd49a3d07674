import ManagementScript.Source.Excerpt
import ManagementScript.Proofs.Source.Bytes

/-!
Lines that are quoted. The offsets at which the lines of a text begin also tell where they end, and each
offset lies on the line that an excerpt quotes for its place.
-/

namespace ManagementScript

/-! ### Slices -/

namespace Text

theorem dropBytes?_append (front back : List Char) :
    dropBytes? (byteCount front) (front ++ back) = some back := by
  induction front with
  | nil => rw [List.nil_append, byteCount, List.foldl_nil, dropBytes?]
  | cons c front ih =>
    have hpos := c.utf8Size_pos
    have hne : c.utf8Size + byteCount front ≠ 0 := by omega
    obtain ⟨n, hn⟩ := Nat.exists_eq_add_one_of_ne_zero hne
    rw [byteCount_cons, hn, List.cons_append, dropBytes?, if_pos (by omega), ← hn, Nat.add_sub_cancel_left,
      ih]

theorem slice?_append (front middle back : List Char) :
    slice? (byteCount front) (byteCount (front ++ middle)) (front ++ middle ++ back) = some middle := by
  have hsize : byteCount (front ++ middle) - byteCount front = byteCount middle := by
    rw [byteCount_append, Nat.add_sub_cancel_left]
  have hle : ¬byteCount (front ++ middle) < byteCount front := by
    rw [byteCount_append]
    omega
  rw [slice?, if_neg hle, hsize, List.append_assoc, dropBytes?_append]
  simp only [bind, Option.bind, dropBytes?_append]
  rw [List.length_append, Nat.add_sub_cancel, List.take_left]
  rfl

end Text

/-! ### Lines -/

/-- A line of a text, with what stands before and behind it. -/
structure IsLine (source : String) (front line back : List Char) : Prop where
  text : source.toList = front ++ line ++ back
  begins : ∀ c ∈ front.getLast?, c = '\n'
  unbroken : '\n' ∉ line
  ends : ∀ c ∈ back.head?, c = '\n'

theorem lineBehind_of_begins (h : ∀ c ∈ front.getLast?, c = '\n') : lineBehind front = [] := by
  cases front using List.reverseRecOn with
  | nil => rfl
  | append_singleton front c =>
    obtain rfl := h c List.getLast?_concat
    exact List.rtakeWhile_concat_neg _ _ _ Bool.false_ne_true

theorem exists_lines (front : List Char) :
    ∃ lines, front = lines ++ lineBehind front ∧ ∀ c ∈ lines.getLast?, c = '\n' := by
  by_cases h : '\n' ∈ front
  · obtain ⟨lines, line, rfl, hline⟩ := exists_last h
    refine ⟨lines ++ ['\n'], ?_, fun c hc => ?_⟩
    · rw [lineBehind_append lines hline, List.append_assoc, List.singleton_append]
    · rw [List.getLast?_concat] at hc
      exact (Option.some.inj hc).symm
  · exact ⟨[], (lineBehind_of_notMem h).symm, by simp⟩

theorem head?_dropWhile (cs : List Char) : ∀ c ∈ (cs.dropWhile (· != '\n')).head?, c = '\n' := by
  intro c hc
  have hhead := List.head?_dropWhile_not (· != '\n') cs
  rw [Option.mem_def.1 hc] at hhead
  exact bne_eq_false_iff_eq.1 hhead

/-- A line has no line feed that could be trimmed. -/
theorem trimEnd_line (h : '\n' ∉ line) :
    Text.trimEnd (fun c => c == '\r' || c == '\n') line = line.rdropWhile (· == '\r') := by
  induction line using List.reverseRecOn with
  | nil => rfl
  | append_singleton line c ih =>
    have hc : (c == '\n') = false := beq_eq_false_iff_ne.2 fun he => h (by simp [he])
    have ih := ih fun hmem => h (List.mem_append_left _ hmem)
    change List.rdropWhile _ line = _ at ih
    change List.rdropWhile _ (line ++ [c]) = _
    rw [List.rdropWhile_concat, List.rdropWhile_concat, hc, Bool.or_false, ih]

/-- Each part of a text ends on a line, which is behind the last line feed before. -/
theorem exists_line (h : source.toList = front ++ back) :
    ∃ lines rest, front = lines ++ lineBehind front ∧
      IsLine source lines (lineBehind front ++ back.takeWhile (· != '\n')) rest := by
  obtain ⟨lines, hlines, hbegins⟩ := exists_lines front
  refine ⟨lines, back.dropWhile (· != '\n'), hlines, ?_, hbegins, ?_, head?_dropWhile back⟩
  · rw [← List.append_assoc, ← hlines, List.append_assoc, List.takeWhile_append_dropWhile, h]
  · intro hmem
    rcases List.mem_append.1 hmem with hmem | hmem
    · exact absurd (List.mem_rtakeWhile_imp hmem) Bool.false_ne_true
    · exact absurd (List.mem_takeWhile_imp hmem) Bool.false_ne_true

namespace IsLine

variable {source : String} {front line back : List Char}

theorem start? (h : IsLine source front line back) :
    (LineIndex.ofString source).starts[front.count '\n']? = some (Text.byteCount front) := by
  rw [LineIndex.lineStart? (h.text.trans (List.append_assoc ..)), lineBehind_of_begins h.begins]
  rfl

/-- The next line begins behind the line feed that ends this one. -/
theorem next? (h : IsLine source front line back) :
    (LineIndex.ofString source).starts[front.count '\n' + 1]? =
      back.head?.map fun _ => Text.byteCount (front ++ line) + 1 := by
  have hlength : (0 :: (offsetsFrom '\n' 0 front).map (· + 1)).length = front.count '\n' + 1 := by
    rw [List.length_cons, List.length_map, length_offsetsFrom]
  rw [← Array.getElem?_toList, LineIndex.toList_starts (h.text.trans (List.append_assoc ..)),
    List.getElem?_append_right (Nat.le_of_eq hlength), hlength, Nat.sub_self, offsetsFrom_append,
    offsetsFrom_of_notMem h.unbroken, List.nil_append, ← Text.byteCount_append]
  cases back with
  | nil => rfl
  | cons c back =>
    obtain rfl := h.ends c rfl
    rfl

theorem quotedLine?_eq (h : IsLine source front line back) :
    (LineIndex.ofString source).quotedLine? source (front.count '\n' + 1) =
      some (String.ofList (line.rdropWhile (· == '\r'))) := by
  have hlast : ((back.head?.map fun _ => Text.byteCount (front ++ line) + 1).map (· - 1)).getD
      source.utf8ByteSize = Text.byteCount (front ++ line) := by
    cases back with
    | nil =>
      rw [Text.utf8ByteSize_eq, h.text, List.append_nil]
      rfl
    | cons => rfl
  have htrim := trimEnd_line h.unbroken
  rw [LineIndex.quotedLine?, if_neg (Nat.succ_ne_zero _), Nat.add_sub_cancel, h.start?, h.next?, hlast]
  simp only [bind, Option.bind, h.text, Text.slice?_append, htrim]
  rfl

end IsLine

theorem count_lines (h : front = lines ++ lineBehind front) : front.count '\n' = lines.count '\n' := by
  have hunbroken : '\n' ∉ lineBehind front := fun hmem =>
    absurd (List.mem_rtakeWhile_imp hmem) Bool.false_ne_true
  have hcount := congrArg (List.count '\n') h
  rwa [List.count_append, List.count_eq_zero_of_not_mem hunbroken] at hcount

/-- An offset within the first character is not behind the first line, of which that character is a part or
which it ends. -/
theorem le_byteCount_takeWhile (hnext : ∀ c ∈ cs.head?, offset < start + c.utf8Size)
    (hend : offset ≤ start + Text.byteCount cs) :
    offset ≤ start + Text.byteCount (cs.takeWhile (· != '\n')) := by
  cases cs with
  | nil => exact hend
  | cons c cs =>
    have hnext := hnext c rfl
    by_cases hc : c = '\n'
    · subst hc
      have hone : ('\n').utf8Size = 1 := rfl
      omega
    · have hunbroken : (c != '\n') = true := bne_iff_ne.2 hc
      rw [List.takeWhile_cons, if_pos hunbroken, Text.byteCount_cons]
      omega

namespace LineIndex

/-- The place of an offset is on a line of the text: the column is counted from where the line begins, and
the offset is no further than where it ends. -/
theorem exists_line_at (source : String) (offset : Nat) : ∃ front line back,
    IsLine source front line back ∧
    ((ofString source).positionAt offset).line = front.count '\n' + 1 ∧
    ((ofString source).positionAt offset).offset + 1 =
      Text.byteCount front + ((ofString source).positionAt offset).column ∧
    ((ofString source).positionAt offset).offset ≤ Text.byteCount (front ++ line) := by
  rw [positionAt_min]
  have hle := Nat.min_le_right offset (Text.byteCount source.toList)
  generalize min offset (Text.byteCount source.toList) = offset at hle ⊢
  obtain ⟨front, back, part, hsource, -, -, hoffset, hnext⟩ := Text.exists_before hle
  obtain ⟨lines, rest, hlines, hline⟩ := exists_line hsource
  have hsize : Text.byteCount front = Text.byteCount lines + Text.byteCount (lineBehind front) := by
    rw [← Text.byteCount_append, ← hlines]
  have hend : offset ≤ Text.byteCount front + Text.byteCount back := by
    rwa [← Text.byteCount_append, ← hsource]
  rw [positionAt_within hsource (by omega) hnext hle]
  refine ⟨lines, _, rest, hline, congrArg (· + 1) (count_lines hlines), ?_, ?_⟩
  · simp only
    omega
  · rw [← List.append_assoc, ← hlines, Text.byteCount_append]
    exact le_byteCount_takeWhile hnext hend

/-- Further on in a text the line is a later one, or it is the same line and the column is a later one. -/
theorem positionAt_lt (h : a < b) (hb : b ≤ (Text.bytes source).length) :
    ((ofString source).positionAt a).line < ((ofString source).positionAt b).line ∨
    ((ofString source).positionAt a).line = ((ofString source).positionAt b).line ∧
      ((ofString source).positionAt a).column < ((ofString source).positionAt b).column := by
  have hmore : ((Text.bytes source).drop a).take (b - a) ≠ [] := by
    rw [← List.length_pos_iff, List.length_take, List.length_drop]
    omega
  have hfront : (Text.bytes source).take b =
      (Text.bytes source).take a ++ ((Text.bytes source).drop a).take (b - a) := by
    rw [← List.take_add, Nat.add_sub_cancel' (Nat.le_of_lt h)]
  rw [positionAt_eq, positionAt_eq, hfront]
  exact Position.behindBytes_lt _ hmore

end LineIndex

end ManagementScript
