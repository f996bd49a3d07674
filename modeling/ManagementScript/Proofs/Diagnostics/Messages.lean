import ManagementScript.Diagnostics.LogEvent
import ManagementScript.Proofs.Source.Bytes

/-!
Messages that are cut. The search for the place to cut at goes back from the limit byte by byte. Since no
character has more than four bytes it goes back at most three of them, and no whole character that fits is
lost.
-/

namespace ManagementScript

/-! ### The search -/

/-- A search that begins at an offset and ends at a place after some steps, each of them one byte back. No
step goes back from the beginning. -/
inductive StepsBack (text : String) : (steps offset : Nat) → text.Pos → Prop where
  | found (place : text.Pos) : StepsBack text 0 place.offset.byteIdx place
  | back (h : ¬(String.Pos.Raw.mk (offset + 1)).IsValid text) (hrest : StepsBack text steps offset place) :
      StepsBack text (steps + 1) (offset + 1) place

/-- The search ends, at the latest at the beginning of the text. -/
theorem exists_stepsBack (text : String) (offset : Nat) :
    ∃ steps, StepsBack text steps offset (lastPlace text offset) := by
  induction offset with
  | zero => exact ⟨0, .found text.startPos⟩
  | succ offset ih =>
    rw [lastPlace]
    split
    · next h => exact ⟨0, .found ⟨_, h⟩⟩
    · next h =>
      obtain ⟨steps, hsteps⟩ := ih
      exact ⟨steps + 1, .back h hsteps⟩

namespace StepsBack

variable {text : String} {steps offset : Nat} {place : text.Pos}

theorem add_steps (h : StepsBack text steps offset place) : place.offset.byteIdx + steps = offset := by
  induction h with
  | found => exact Nat.add_zero _
  | back _ _ ih => rw [← Nat.add_assoc, ih]

/-- No place is passed over. -/
theorem le_place (h : StepsBack text steps offset place) (hn : n ≤ offset)
    (hvalid : (String.Pos.Raw.mk n).IsValid text) : n ≤ place.offset.byteIdx := by
  induction h with
  | found => exact hn
  | back hback _ ih =>
    rcases Nat.lt_or_eq_of_le hn with hlt | rfl
    · exact ih (Nat.le_of_lt_succ hlt)
    · exact absurd hvalid hback

/-- Within a character the search ends where it begins. -/
theorem steps_le (h : StepsBack text steps offset place) (hoffset : offset ≤ text.utf8ByteSize) :
    steps ≤ 3 := by
  rw [Text.utf8ByteSize_eq] at hoffset
  obtain ⟨front, back, part, htext, -, -, hpart, hnext⟩ := Text.exists_before hoffset
  have hplace := h.le_place (Nat.le.intro hpart.symm) (Text.isValid_iff.2 ⟨front, back, htext, rfl⟩)
  have hsteps := h.add_steps
  cases back with
  | nil =>
    rw [htext, List.append_nil] at hoffset
    omega
  | cons c back =>
    have hinside := hnext c rfl
    have hsize := c.utf8Size_le_four
    omega

end StepsBack

example : (lastPlace "a€" 3).offset.byteIdx = 1 := by decide +kernel

/-! ### The cut -/

/-- What is kept of a message that is cut: as many whole characters from its beginning as fit. -/
structure IsCut (message kept : String) : Prop where
  begins : kept.toList <+: message.toList
  fits : kept.utf8ByteSize ≤ Limits.messageSize
  longest : ∀ front, front <+: message.toList → Text.byteCount front ≤ Limits.messageSize →
    front <+: kept.toList

section

variable {message kept rest : String} {steps : Nat} {place : message.Pos}

theorem utf8ByteSize_of_splits (h : place.Splits kept rest) : kept.utf8ByteSize = place.offset.byteIdx :=
  (congrArg (·.byteIdx) h.offset_eq_rawEndPos).symm

theorem StepsBack.size_add_steps (h : StepsBack message steps offset place)
    (hkept : place.Splits kept rest) : kept.utf8ByteSize + steps = offset := by
  rw [utf8ByteSize_of_splits hkept, h.add_steps]

theorem StepsBack.isCut (h : StepsBack message steps Limits.messageSize place)
    (hkept : place.Splits kept rest) : IsCut message kept := by
  have hsplit : message.toList = kept.toList ++ rest.toList := by
    rw [← String.toList_append, ← hkept.eq_append]
  refine ⟨⟨rest.toList, hsplit.symm⟩, Nat.le.intro (h.size_add_steps hkept), ?_⟩
  -- A beginning that fits ends at a place that the search does not pass.
  rintro front ⟨back, hfront⟩ hfits
  have hvalid := Text.isValid_iff.2 ⟨front, back, hfront.symm, rfl⟩
  have hle : Text.byteCount front ≤ Text.byteCount kept.toList := by
    rw [← Text.utf8ByteSize_eq, utf8ByteSize_of_splits hkept]
    exact h.le_place hfits hvalid
  obtain ⟨more, hmore⟩ := Text.exists_append_of_byteCount (hfront.trans hsplit) hle
  exact ⟨more, hmore.symm⟩

end

/-- A message that fits is kept as it is. Of any other one the longest beginning of whole characters that fits
is kept and marked. The search for its end goes back at most three bytes from the limit, and so never from the
beginning of the message; the mark is all that is kept over the limit. -/
theorem message_cut_between_characters (message : String) :
    (if message.utf8ByteSize ≤ Limits.messageSize then boundedMessage message = message
      else ∃ kept steps, boundedMessage message = kept ++ "..." ∧ IsCut message kept ∧ steps ≤ 3 ∧
        StepsBack message steps Limits.messageSize (lastPlace message Limits.messageSize) ∧
        kept.utf8ByteSize + steps = Limits.messageSize) ∧
    (boundedMessage message).utf8ByteSize ≤ Limits.messageSize + 3 := by
  have hmark : "...".utf8ByteSize = 3 := rfl
  rw [boundedMessage]
  split
  · next h => exact ⟨rfl, Nat.le_add_right_of_le h⟩
  · next h =>
    obtain ⟨steps, hsteps⟩ := exists_stepsBack message Limits.messageSize
    generalize lastPlace message Limits.messageSize = place at hsteps ⊢
    have hcut := hsteps.isCut place.splits
    refine ⟨⟨_, steps, rfl, hcut, hsteps.steps_le (Nat.le_of_not_le h), hsteps,
      hsteps.size_add_steps place.splits⟩, ?_⟩
    rw [String.utf8ByteSize_append, hmark]
    exact Nat.add_le_add_right hcut.fits 3

end ManagementScript
