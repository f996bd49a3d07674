import ManagementScript.Proofs.Source.Lines

/-!
Texts as bytes. A line feed is a byte of its own, and no other character has that byte; so lines and columns
can be read off the bytes before an offset, whether or not a character ends there.
-/

namespace ManagementScript

namespace Text

/-- The bytes of a text in UTF-8. -/
def bytes (source : String) : List UInt8 := source.toUTF8.data.toList

/-- The bytes of characters in UTF-8. -/
def encoded (cs : List Char) : List UInt8 := cs.flatMap String.utf8EncodeChar

theorem bytes_eq (source : String) : bytes source = encoded source.toList := by
  rw [bytes, String.toUTF8_eq_toByteArray, ← String.ofList_toList (s := source), String.toByteArray_ofList,
    List.utf8Encode, List.data_toByteArray, String.toList_ofList]
  rfl

theorem encoded_append (front back : List Char) : encoded (front ++ back) = encoded front ++ encoded back :=
  List.flatMap_append

theorem encoded_cons (c : Char) (cs : List Char) :
    encoded (c :: cs) = String.utf8EncodeChar c ++ encoded cs :=
  List.flatMap_cons

theorem length_encoded (cs : List Char) : (encoded cs).length = byteCount cs := by
  induction cs with
  | nil => rfl
  | cons c cs ih => rw [encoded_cons, List.length_append, ih, byteCount_cons, String.length_utf8EncodeChar]

theorem length_bytes (source : String) : (bytes source).length = byteCount source.toList := by
  rw [bytes_eq, length_encoded]

/-- An offset is between two characters if some characters of the text end there. -/
theorem isValid_iff {source : String} : (String.Pos.Raw.mk offset).IsValid source ↔
    ∃ seen rest, source.toList = seen ++ rest ∧ byteCount seen = offset := by
  rw [String.Pos.Raw.isValid_iff_exists_append]
  apply Iff.intro
  · rintro ⟨s, s', rfl, hoffset⟩
    have hsize : s.utf8ByteSize = offset := (congrArg (·.byteIdx) hoffset).symm
    exact ⟨s.toList, s'.toList, String.toList_append, by rw [← utf8ByteSize_eq, hsize]⟩
  · rintro ⟨seen, rest, hs, rfl⟩
    refine ⟨String.ofList seen, String.ofList rest, ?_, ?_⟩
    · rw [← String.ofList_append, ← hs, String.ofList_toList]
    · rw [String.rawEndPos, utf8ByteSize_ofList]

theorem lineFeed_eq_ofNat_iff {n : Nat} : 10 = UInt8.ofNat n ↔ n % 256 = 10 := by
  rw [← UInt8.toNat_inj, UInt8.toNat_ofNat', eq_comm]
  rfl

theorem lineFeed_notMem (h : c ≠ '\n') : 10 ∉ String.utf8EncodeChar c := by
  have hc : c.val.toNat ≠ 10 := fun he => h (Char.ext (UInt32.toNat_inj.1 he))
  -- The byte of a short character is its code; the bytes of a longer one have the highest bit.
  simp only [String.utf8EncodeChar]
  split
  · simp only [List.mem_singleton, lineFeed_eq_ofNat_iff]
    omega
  · split
    · simp only [List.mem_cons, List.not_mem_nil, or_false, lineFeed_eq_ofNat_iff]
      omega
    · split
      · simp only [List.mem_cons, List.not_mem_nil, or_false, lineFeed_eq_ofNat_iff]
        omega
      · simp only [List.mem_cons, List.not_mem_nil, or_false, lineFeed_eq_ofNat_iff]
        omega

theorem encoded_lineFeed : String.utf8EncodeChar '\n' = [10] := rfl

theorem lineFeed_notMem_encoded (h : '\n' ∉ cs) : 10 ∉ encoded cs := by
  intro hmem
  obtain ⟨c, hc, hbyte⟩ := List.mem_flatMap.1 hmem
  exact lineFeed_notMem (fun he => h (he ▸ hc)) hbyte

/-- The line feeds of a text are the bytes of that value. -/
theorem count_encoded (cs : List Char) : (encoded cs).count 10 = cs.count '\n' := by
  induction cs with
  | nil => rfl
  | cons c cs ih =>
    rw [encoded_cons, List.count_append, ih, List.count_cons]
    by_cases hc : c = '\n'
    · subst hc
      rw [encoded_lineFeed, if_pos (beq_self_eq_true _)]
      exact Nat.add_comm _ _
    · rw [List.count_eq_zero_of_not_mem (lineFeed_notMem hc), if_neg (mt beq_iff_eq.1 hc), Nat.zero_add,
        Nat.add_zero]

theorem rtakeWhile_of_notMem {last : List UInt8} (h : 10 ∉ last) (bytes : List UInt8) :
    (bytes ++ last).rtakeWhile (· != 10) = bytes.rtakeWhile (· != 10) ++ last := by
  have hlast (b : UInt8) (hb : b ∈ last.reverse) : (b != 10) = true :=
    bne_iff_ne.2 fun he => h (he ▸ List.mem_reverse.1 hb)
  rw [List.rtakeWhile, List.reverse_append, List.takeWhile_append_of_pos hlast, List.reverse_append,
    List.reverse_reverse, List.rtakeWhile]

/-- The bytes of the last line are the last bytes that are no line feed. -/
theorem rtakeWhile_encoded (cs : List Char) :
    (encoded cs).rtakeWhile (· != 10) = encoded (lineBehind cs) := by
  by_cases h : '\n' ∈ cs
  · obtain ⟨lines, line, rfl, hline⟩ := exists_last h
    rw [lineBehind_append lines hline, encoded_append, encoded_cons, encoded_lineFeed, ← List.append_assoc,
      rtakeWhile_of_notMem (lineFeed_notMem_encoded hline), List.rtakeWhile_concat_neg _ _ _ (by decide),
      List.nil_append]
  · rw [lineBehind_of_notMem h, ← List.nil_append (encoded cs),
      rtakeWhile_of_notMem (lineFeed_notMem_encoded h), List.rtakeWhile_nil]

/-- The bytes before an offset are those of the characters before it and a part of the next one, which is no
line feed. -/
theorem exists_before (h : offset ≤ byteCount cs) : ∃ front back part, cs = front ++ back ∧
    (encoded cs).take offset = encoded front ++ part ∧ 10 ∉ part ∧
    offset = byteCount front + part.length ∧
    ∀ c ∈ back.head?, offset < byteCount front + c.utf8Size := by
  induction cs generalizing offset with
  | nil =>
    obtain rfl : offset = 0 := Nat.le_zero.1 h
    exact ⟨[], [], [], rfl, rfl, List.not_mem_nil, rfl, by simp⟩
  | cons c cs ih =>
    rw [byteCount_cons] at h
    have hsize := String.length_utf8EncodeChar c
    rcases Nat.lt_or_ge offset c.utf8Size with hlt | hge
    · have htake : (encoded (c :: cs)).take offset = (String.utf8EncodeChar c).take offset := by
        rw [encoded_cons, List.take_append_of_le_length (by omega)]
      refine ⟨[], c :: cs, (String.utf8EncodeChar c).take offset, rfl, htake, ?_, ?_, ?_⟩
      · by_cases hc : c = '\n'
        · subst hc
          have hone : ('\n').utf8Size = 1 := rfl
          rw [show offset = 0 by omega, List.take_zero]
          exact List.not_mem_nil
        · exact fun hmem => lineFeed_notMem hc (List.mem_of_mem_take hmem)
      · rw [List.length_take, hsize, Nat.min_eq_left (Nat.le_of_lt hlt)]
        exact (Nat.zero_add _).symm
      · intro d hd
        obtain rfl := Option.some.inj hd
        exact Nat.lt_of_lt_of_eq hlt (Nat.zero_add _).symm
    · have hrest : offset - c.utf8Size ≤ byteCount cs := by omega
      obtain ⟨front, back, part, rfl, htake, hpart, hoffset, hnext⟩ := ih hrest
      refine ⟨c :: front, back, part, rfl, ?_, hpart, ?_, ?_⟩
      · rw [encoded_cons, List.take_append, hsize, htake, List.take_of_length_le (by omega), encoded_cons,
          List.append_assoc]
      · rw [byteCount_cons]
        omega
      · intro d hd
        have hnext := hnext d hd
        rw [byteCount_cons]
        omega

end Text

/-- The place that the bytes before an offset lead to. -/
def Position.behindBytes (before : List UInt8) : Position :=
  ⟨before.length, before.count 10 + 1, (before.rtakeWhile (· != 10)).length + 1⟩

/-- Further on in a text the place is further down, or further to the right on the same line. -/
theorem Position.behindBytes_lt (before : List UInt8) (h : more ≠ []) :
    (Position.behindBytes before).line < (Position.behindBytes (before ++ more)).line ∨
    (Position.behindBytes before).line = (Position.behindBytes (before ++ more)).line ∧
      (Position.behindBytes before).column < (Position.behindBytes (before ++ more)).column := by
  simp only [Position.behindBytes, List.count_append]
  by_cases hmore : 10 ∈ more
  · have hcount := List.count_pos_iff.2 hmore
    exact .inl (by omega)
  · have hpos := List.length_pos_iff.2 h
    rw [List.count_eq_zero_of_not_mem hmore, Text.rtakeWhile_of_notMem hmore, List.length_append]
    exact .inr ⟨rfl, by omega⟩

theorem Position.behindBytes_le (before : List UInt8) :
    (Position.behindBytes before).line ≤ before.length + 1 ∧
      (Position.behindBytes before).column ≤ before.length + 1 :=
  ⟨Nat.succ_le_succ List.count_le_length, Nat.succ_le_succ (List.rtakeWhile_suffix _ _).length_le⟩

namespace LineIndex

theorem positionAt_of_le (h : offset ≤ Text.byteCount source.toList) :
    (ofString source).positionAt offset = .behindBytes ((Text.bytes source).take offset) := by
  obtain ⟨front, back, part, hsource, htake, hpart, hoffset, hnext⟩ := Text.exists_before h
  have hcount := List.count_eq_zero_of_not_mem hpart
  rw [positionAt_within hsource (by omega) hnext h, Text.bytes_eq, htake, Position.behindBytes]
  simp only [List.length_append, List.count_append, Text.length_encoded, Text.count_encoded,
    Text.rtakeWhile_of_notMem hpart, Text.rtakeWhile_encoded, hcount]
  congr 1
  omega

/-- An offset behind the end stands for the end. -/
theorem positionAt_min (source : String) (offset : Nat) : (ofString source).positionAt offset =
    (ofString source).positionAt (min offset (Text.byteCount source.toList)) := by
  have hsize : (ofString source).size = Text.byteCount source.toList := Text.utf8ByteSize_eq source
  rw [positionAt, positionAt, hsize, Nat.min_assoc, Nat.min_self]

/-- Any offset, within a character or behind the end as well: its place is told by the bytes before it. -/
theorem positionAt_eq (source : String) (offset : Nat) :
    (ofString source).positionAt offset = .behindBytes ((Text.bytes source).take offset) := by
  rw [positionAt_min, positionAt_of_le (Nat.min_le_right _ _), ← Text.length_bytes, ← List.take_take,
    List.take_length]

example : (ofString "é\r\nx").positionAt 1 = ⟨1, 1, 2⟩ := by decide +kernel

end LineIndex

end ManagementScript
