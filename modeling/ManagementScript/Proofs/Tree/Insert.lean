import ManagementScript.Proofs.Tree.Passage

/-!
What may stand between two runs of character data of one element: sections, comments and processing
instructions. Each is read up to the place where it is closed, and nothing else of it matters.
-/

namespace ManagementScript.Xml

/-! ### Markup that ends where it is closed -/

/-- Markup that no character before ends is read up to the character that ends it. -/
theorem readUntil_of_foldlM {σ : Type} {step : σ → Char → Option σ} {state state' : σ}
    {cs : List Char} (h : cs.foldlM step state = some state') (hend : step state' c = none)
    (taken rest : List Char) :
    readUntil step state taken (cs ++ c :: rest) = some (taken.reverse ++ cs, rest) := by
  induction cs generalizing state taken with
  | nil =>
    cases h
    simp only [List.nil_append, readUntil, hend, List.append_nil]
  | cons x cs ih =>
    rw [List.foldlM_cons, Option.bind_eq_bind, Option.bind_eq_some_iff] at h
    obtain ⟨next, hstep, h⟩ := h
    simp only [List.cons_append, readUntil, hstep]
    rw [ih h]
    simp

theorem prefix_of_readUntil {σ : Type} {step : σ → Char → Option σ} {state : σ} {cs : List Char}
    (h : readUntil step state taken cs = some (content, rest)) : taken.reverse <+: content := by
  induction cs generalizing state taken with
  | nil => cases h
  | cons c cs ih =>
    rw [readUntil] at h
    split at h
    · cases h
      exact List.prefix_rfl
    · exact (List.prefix_append taken.reverse [c]).trans (by simpa using ih h)

/-- Markup that begins with a slash is the end of an element, if it is the right one. -/
theorem reading_endTag (state : ScanState) (back : List Char) : ∃ mark more,
    reading state ('<' :: '/' :: back) = mark :: more ∧
      ((∃ name, mark = .finish 0 name) ∨ ∃ defect, mark = .fault 0 defect) := by
  have hblank : ('<' :: '/' :: back).dropWhile Text.isBlank = '<' :: '/' :: back := rfl
  cases hm : markupOf ('/' :: back) with
  | error defect => exact ⟨_, _, reading_defect hblank hm, .inr ⟨_, rfl⟩⟩
  | ok found =>
    obtain ⟨p, rest⟩ := found
    obtain ⟨content, he, hp⟩ := markupOf_eq_ok_iff.1 hm
    have hslash : ['/'].reverse <+: content := by
      simp only [enclosed] at he
      exact prefix_of_readUntil (elim_eq_ok.1 he : readUntil tagStep none ['/'] back = _)
    obtain ⟨name, rfl⟩ := hslash
    cases hp
    have hread : reading state _ = _ := reading_markup hblank hm
    rw [ScanState.find, ScanState.read] at hread
    simp only [ScanState.endTag] at hread
    split at hread
    · exact ⟨_, _, hread, .inr ⟨_, rfl⟩⟩
    · split at hread
      · exact ⟨_, _, hread, .inl ⟨_, rfl⟩⟩
      · exact ⟨_, _, hread, .inr ⟨_, rfl⟩⟩

/-- The state tells enough of the text read to go on as long as that text does not end in `closer`. -/
def Continues {σ : Type} (step : σ → Char → Option σ) (tells : List Char → σ → Prop)
    (closer : List Char) : Prop :=
  ∀ read state c, tells read state → ¬closer <:+ read ++ [c] →
    ∃ state', step state c = some state' ∧ tells (read ++ [c]) state'

theorem Continues.foldlM {σ : Type} {step : σ → Char → Option σ} {tells : List Char → σ → Prop}
    {cs : List Char} (hstep : Continues step tells closer) (read : List Char) (state : σ)
    (ht : tells read state) (h : ¬closer <:+: read ++ cs) :
    ∃ state', cs.foldlM step state = some state' ∧ tells (read ++ cs) state' := by
  induction cs generalizing read state with
  | nil => exact ⟨state, rfl, by simpa using ht⟩
  | cons c cs ih =>
    have hsplit : read ++ c :: cs = read ++ [c] ++ cs := by simp
    rw [hsplit] at h ⊢
    obtain ⟨next, hnext, htold⟩ := hstep read state c ht fun hclosed =>
      h (hclosed.isInfix.trans (List.prefix_append ..).isInfix)
    obtain ⟨state', hread, htells⟩ := ih _ _ htold h
    exact ⟨state', by simp [hnext, hread], htells⟩

/-- A run that is long enough ends in each shorter one. -/
theorem replicate_suffix {cs : List Char} (h : List.replicate n c <:+ cs) (hle : m ≤ n) :
    List.replicate m c <:+ cs :=
  (List.suffix_replicate_iff.2 ⟨by simpa using hle, by simp⟩).trans h

theorem replicate_suffix_concat {cs : List Char} (h : List.replicate n c <:+ cs) :
    List.replicate (n + 1) c <:+ cs ++ [c] := by
  rw [List.replicate_succ']
  exact List.suffix_append_self_iff.2 h

theorem continues_cdata :
    Continues cdataStep (fun read brackets => List.replicate brackets ']' <:+ read) [']', ']', '>'] := by
  intro read brackets c ht hc
  have hopen : ¬(c = '>' ∧ 2 ≤ brackets) := by
    rintro ⟨rfl, hle⟩
    have htwo : List.replicate 2 ']' <:+ read := replicate_suffix ht hle
    exact hc (List.suffix_append_self_iff.2 htwo : [']', ']'] ++ ['>'] <:+ read ++ ['>'])
  refine ⟨_, by rw [cdataStep, if_neg (by simpa using hopen)], ?_⟩
  split
  · next he =>
    rw [eq_of_beq he]
    exact replicate_suffix_concat ht
  · exact List.nil_suffix

theorem continues_comment :
    Continues commentStep (fun read (size, hyphens) => size = 3 + Text.byteCount read ∧
      List.replicate hyphens '-' <:+ '-' :: '-' :: read) ['-', '-', '>'] := by
  rintro read ⟨size, hyphens⟩ c ⟨hsize, ht⟩ hc
  have hopen : ¬(c = '>' ∧ 5 ≤ size ∧ 2 ≤ hyphens) := by
    rintro ⟨rfl, hroom, hle⟩
    have htwo : ['-', '-'] <:+ '-' :: '-' :: read := replicate_suffix ht hle
    have hread : ['-', '-'] <:+ read := by
      match read with
      | [] =>
        rw [hsize] at hroom
        exact absurd hroom (by decide)
      | [x] =>
        have hx : x = '-' := by
          have hlast := List.singleton_suffix_iff_getLast?_eq_some.1 ((List.suffix_cons ..).trans htwo)
          simpa using hlast
        rw [hsize, hx] at hroom
        exact absurd hroom (by decide)
      | x :: y :: read =>
        exact List.suffix_of_suffix_length_le htwo
          ((List.suffix_cons ..).trans (List.suffix_cons ..)) (by simp)
    exact hc (List.suffix_append_self_iff.2 hread : ['-', '-'] ++ ['>'] <:+ read ++ ['>'])
  have hbytes : Text.byteCount (read ++ [c]) = Text.byteCount read + c.utf8Size := by
    rw [Text.byteCount_append, Text.byteCount_cons]
    rfl
  refine ⟨_, by rw [commentStep, if_neg (by simpa [and_assoc] using hopen)], ?_, ?_⟩
  · rw [hbytes, hsize, Nat.add_assoc]
  · split
    · next he =>
      rw [eq_of_beq he]
      exact replicate_suffix_concat ht
    · exact List.nil_suffix

theorem continues_instruction :
    Continues instructionStep (fun read asked => asked = true → ['?'] <:+ read) ['?', '>'] := by
  intro read asked c ht hc
  have hopen : ¬(asked = true ∧ c = '>') := by
    rintro ⟨hasked, rfl⟩
    exact hc (List.suffix_append_self_iff.2 (ht hasked) : ['?'] ++ ['>'] <:+ read ++ ['>'])
  refine ⟨_, by rw [instructionStep, if_neg (by simpa using hopen)], fun he => ?_⟩
  rw [eq_of_beq he]
  exact List.suffix_append ..

/-! ### Between the runs of character data -/

/-- What may stand between two runs of character data of one element. -/
inductive Insert where
  | cdata (content : List Char)
  | comment (content : List Char)
  | instruction (content : List Char)

namespace Insert

/-- What stands between its `<` and its `>`. -/
def markup : Insert → List Char
  | cdata content => ['!', '[', 'C', 'D', 'A', 'T', 'A', '['] ++ (content ++ [']', ']'])
  | comment content => ['!', '-', '-'] ++ (content ++ ['-', '-'])
  | instruction content => '?' :: (content ++ ['?'])

def written (i : Insert) : List Char := '<' :: (i.markup ++ ['>'])

/-- The content does not end it. -/
def IsClosed : Insert → Prop
  | cdata content => ¬[']', ']', '>'] <:+: content
  | comment content => ¬['-', '-', '>'] <:+: content
  | instruction content => ¬['?', '>'] <:+: '?' :: content

instance (i : Insert) : Decidable i.IsClosed :=
  match i with
  | cdata _ | comment _ | instruction _ => inferInstanceAs (Decidable (¬_))

/-- What it adds to the text of the element. -/
def text : Insert → List Char
  | cdata content => content
  | comment _ | instruction _ => []

def events : Insert → List Event
  | cdata content => [.cdata 0 content]
  | comment _ | instruction _ => []

theorem enclosed_markup {i : Insert} (h : i.IsClosed) (rest : List Char) :
    enclosed (i.markup ++ '>' :: rest) = .ok (i.markup, rest) := by
  cases i with
  | cdata content =>
    obtain ⟨brackets, hread, _⟩ := continues_cdata.foldlM [] 0 List.nil_suffix h
    have hsteps : (markup (.cdata content)).foldlM cdataStep 0 = some (brackets + 2) := by
      rw [markup, List.foldlM_append]
      simp [cdataStep, hread]
    have hend : cdataStep (brackets + 2) '>' = none := rfl
    have hall := readUntil_of_foldlM hsteps hend [] rest
    simp only [markup, List.cons_append, List.nil_append, enclosed] at hall ⊢
    rw [hall]
    rfl
  | comment content =>
    obtain ⟨⟨size, hyphens⟩, hread, hsize, _⟩ :=
      continues_comment.foldlM [] (3, 2) ⟨rfl, List.suffix_rfl⟩ h
    have hsteps : (markup (.comment content)).foldlM commentStep (0, 0) =
        some (size + 2, hyphens + 2) := by
      have hopening : ['!', '-', '-'].foldlM commentStep (0, 0) = some (3, 2) := rfl
      have hclosing : ['-', '-'].foldlM commentStep (size, hyphens) = some (size + 2, hyphens + 2) :=
        rfl
      rw [markup, List.foldlM_append, hopening, Option.bind_eq_bind, Option.bind_some,
        List.foldlM_append, hread]
      exact hclosing
    have hend : commentStep (size + 2, hyphens + 2) '>' = none := by
      have hroom : 5 ≤ size + 2 := by omega
      simp [commentStep, hroom]
    have hall := readUntil_of_foldlM hsteps hend [] rest
    simp only [markup, List.cons_append, List.nil_append, enclosed] at hall ⊢
    rw [hall]
    rfl
  | instruction content =>
    obtain ⟨asked, hread, _⟩ :=
      continues_instruction.foldlM ['?'] true (fun _ => List.suffix_rfl) h
    have hsteps : (markup (.instruction content)).foldlM instructionStep false = some true := by
      have hopening : ['?'].foldlM instructionStep false = some true := rfl
      have hclosing : ['?'].foldlM instructionStep asked = some true := by
        cases asked <;> rfl
      rw [markup, ← List.singleton_append, List.foldlM_append, hopening, Option.bind_eq_bind,
        Option.bind_some, List.foldlM_append, hread]
      exact hclosing
    have hend : instructionStep true '>' = none := rfl
    have hall := readUntil_of_foldlM hsteps hend [] rest
    simp only [markup, List.cons_append, enclosed] at hall ⊢
    rw [hall]
    rfl

theorem piece_markup (i : Insert) : piece i.markup = .ok (match i with
    | cdata content => .cdata content
    | comment _ | instruction _ => .aside) := by
  cases i with
  | cdata content =>
    have hdropped : (content ++ [']', ']']).dropLast.dropLast = content := by
      rw [List.append_cons, List.dropLast_concat, List.dropLast_concat]
    simp only [markup, List.cons_append, List.nil_append, piece, hdropped]
  | comment content => rfl
  | instruction content => cases content <;> rfl

theorem reading_written {i : Insert} (h : i.IsClosed) (state : ScanState) (rest : List Char) :
    reading state (i.written ++ rest) = i.events ++ reading state rest := by
  rw [written, Passes.markup (enclosed_markup h) i.piece_markup rest]
  cases i with
  | cdata | comment | instruction => exact congrArg _ (reading_congr rfl)

end Insert

end ManagementScript.Xml
