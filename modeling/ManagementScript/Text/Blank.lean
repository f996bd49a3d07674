/-!
The classes of white space that documents and values are trimmed and split by, and the operations
on them. Markup knows four blank characters, values are trimmed by the Unicode property White_Space,
and list values are split at the five separators.
-/

namespace ManagementScript.Text

/-- White space of markup: space, tab, carriage return and line feed. -/
def isBlank (c : Char) : Bool :=
  c == ' ' || c == '\t' || c == '\r' || c == '\n'

/-- What separates the items of a list value: a blank or a form feed. -/
def isSeparator (c : Char) : Bool :=
  isBlank c || c == '\x0c'

/-- The characters with the Unicode property White_Space. -/
def isWhiteSpace (c : Char) : Bool :=
  let n := c.toNat
  (9 ≤ n && n ≤ 13) || n == 0x20 || n == 0x85 || n == 0xa0 || n == 0x1680 ||
    (0x2000 ≤ n && n ≤ 0x200a) || n == 0x2028 || n == 0x2029 || n == 0x202f || n == 0x205f ||
    n == 0x3000

theorem isSeparator_of_isBlank {c : Char} (h : isBlank c = true) : isSeparator c = true := by
  simp [isSeparator, h]

theorem isWhiteSpace_of_isSeparator {c : Char} (h : isSeparator c = true) :
    isWhiteSpace c = true := by
  simp only [isSeparator, isBlank, Bool.or_eq_true, beq_iff_eq] at h
  rcases h with (((rfl | rfl) | rfl) | rfl) | rfl <;> decide

/-- Drops the characters of the class `p` at the end. -/
def trimEnd (p : Char → Bool) (cs : List Char) : List Char :=
  (cs.reverse.dropWhile p).reverse

/-- Drops the characters of the class `p` at both ends. -/
def trim (p : Char → Bool) (cs : List Char) : List Char :=
  trimEnd p (cs.dropWhile p)

/-- Drops the white space at both ends of a text. -/
def trimmed (s : String) : String :=
  String.ofList (trim isWhiteSpace s.toList)

/-- The bytes that characters take in UTF-8. -/
def byteCount (cs : List Char) : Nat :=
  cs.foldl (fun n c => n + c.utf8Size) 0

theorem foldl_utf8Size (n : Nat) (cs : List Char) :
    cs.foldl (fun n c => n + c.utf8Size) n = n + byteCount cs := by
  induction cs generalizing n with
  | nil => rfl
  | cons c cs ih =>
    have hc : byteCount (c :: cs) = c.utf8Size + byteCount cs := by
      rw [byteCount, List.foldl_cons, ih, Nat.zero_add]
    rw [List.foldl_cons, ih, hc, Nat.add_assoc]

theorem byteCount_cons (c : Char) (cs : List Char) :
    byteCount (c :: cs) = c.utf8Size + byteCount cs := by
  rw [byteCount, List.foldl_cons, foldl_utf8Size, Nat.zero_add]

theorem byteCount_append (as bs : List Char) :
    byteCount (as ++ bs) = byteCount as + byteCount bs := by
  rw [byteCount, List.foldl_append, foldl_utf8Size]
  rfl

theorem eq_nil_of_byteCount {cs : List Char} (h : byteCount cs = 0) : cs = [] := by
  cases cs with
  | nil => rfl
  | cons c cs =>
    have hpos := c.utf8Size_pos
    rw [byteCount_cons] at h
    omega

/-- Of two texts that a text begins with, the one with fewer bytes begins the other one. -/
theorem exists_append_of_byteCount {front front' back back' : List Char}
    (h : front ++ back = front' ++ back') (hle : byteCount front ≤ byteCount front') :
    ∃ more, front' = front ++ more := by
  rcases List.append_eq_append_iff.1 h with ⟨more, hmore, _⟩ | ⟨more, hmore, _⟩
  · exact ⟨more, hmore⟩
  · rw [hmore, byteCount_append] at hle
    obtain rfl := eq_nil_of_byteCount (show byteCount more = 0 by omega)
    exact ⟨[], by rw [hmore, List.append_nil, List.append_nil]⟩

/-- A text is divided at one place only that a number of bytes stands before. -/
theorem append_inj_of_byteCount {front front' back back' : List Char}
    (h : front ++ back = front' ++ back') (hb : byteCount front = byteCount front') :
    front = front' ∧ back = back' := by
  obtain ⟨more, rfl⟩ := exists_append_of_byteCount h (Nat.le_of_eq hb)
  rw [byteCount_append] at hb
  obtain rfl := eq_nil_of_byteCount (show byteCount more = 0 by omega)
  rw [List.append_nil] at h ⊢
  exact ⟨rfl, List.append_cancel_left h⟩

theorem utf8ByteSize_ofList (cs : List Char) : (String.ofList cs).utf8ByteSize = byteCount cs := by
  induction cs with
  | nil => rfl
  | cons c cs ih =>
    rw [String.ofList_cons, String.utf8ByteSize_append, String.utf8ByteSize_singleton, ih,
      byteCount_cons]

theorem utf8ByteSize_eq (s : String) : s.utf8ByteSize = byteCount s.toList := by
  rw [← utf8ByteSize_ofList, String.ofList_toList]

/-- Collects the words of `cs`; `word` is the unfinished word and `found` the earlier ones, both
last first. -/
def wordsOnto (found : List String) (word : List Char) : List Char → List String
  | [] => (if word.isEmpty then found else String.ofList word.reverse :: found).reverse
  | c :: cs =>
    if isSeparator c then
      wordsOnto (if word.isEmpty then found else String.ofList word.reverse :: found) [] cs
    else
      wordsOnto found (c :: word) cs

/-- The longest runs of characters without a separator, in order. -/
def words (s : String) : List String :=
  wordsOnto [] [] s.toList

end ManagementScript.Text
