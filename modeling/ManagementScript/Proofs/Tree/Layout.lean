import Mathlib.Data.List.Forall2
import ManagementScript.Proofs.Tree.Passage

/-!
What a document is made of: runs of character data and pieces of markup, each with what stands before
it. What is read from a document is read from its parts, in their order.
-/

namespace ManagementScript.Xml

/-- A part of a document, behind the blanks it may begin with. -/
inductive Form where
  | run (raw : List Char)
  | markup (content : List Char) (p : Piece)
  /-- Markup that cannot be read. -/
  | broken (cs : List Char)

def Form.written : Form → List Char
  | .run raw => raw
  | .markup content _ => '<' :: (content ++ ['>'])
  | .broken cs => '<' :: cs

structure Part where
  /-- What stands before the part, a byte order mark left out. -/
  before : List Char
  blanks : List Char
  form : Form

namespace Part

/-- What stands before the part and before it begins behind its blanks. -/
def front (p : Part) : List Char := p.before ++ p.blanks

/-- The text up to the end of the part. -/
def behind (p : Part) : List Char := p.front ++ p.form.written

/-- The name in a tag. -/
def tagName? (p : Part) : Option (List Char) :=
  match p.form with
  | .markup _ (.startTag tag _) => some tag.name
  | .markup _ (.endTag name) => some name
  | _ => none

/-- The part as often as something is read from it: an element that is written as one tag begins and
ends with it, and nothing is read from a comment, an instruction or a declaration. -/
def readings (p : Part) : List Part :=
  match p.form with
  | .markup _ .aside => []
  | .markup _ (.startTag _ true) => [p, p]
  | _ => [p]

/-- What is read from a part. A tag is given the place that `locate` tells for its end, and all else the
place where the part begins. -/
inductive Gives (locate : Nat → Nat) (p : Part) : Event → Prop where
  | text (hp : p.form = .run raw) :
      Gives locate p (.text (Text.byteCount p.before) (Text.trimEnd Text.isBlank raw))
  | cdata (hp : p.form = .markup content (.cdata data)) :
      Gives locate p (.cdata (Text.byteCount p.before) data)
  | start {scope : Scope} (hp : p.tagName? = some tag.name) : Gives locate p
      (.start (locate (Text.byteCount p.behind)) (scope.resolveElement tag.name) tag scope)
  | finish {scope : Scope} (hp : p.tagName? = some name) : Gives locate p
      (.finish (locate (Text.byteCount p.behind)) (scope.resolveElement name))
  | fault : Gives locate p (.fault offset defect)

end Part

/-- The parts of the text `cs`, which stands behind `before`. -/
def partsFrom : (steps : Nat) → (before : List Char) → List Char → List Part
  | 0, _, _ => []
  | steps + 1, before, cs =>
    let part (form : Form) : Part := ⟨before, cs.takeWhile Text.isBlank, form⟩
    match cs.dropWhile Text.isBlank with
    | [] => []
    | '<' :: markup =>
      match enclosed markup with
      | .error _ => [part (.broken markup)]
      | .ok (content, rest) =>
        match piece content with
        | .error _ => [part (.broken markup)]
        | .ok p =>
          let part := part (.markup content p)
          part :: partsFrom steps part.behind rest
    | ahead =>
      let part := part (.run (ahead.takeWhile (· != '<')))
      part :: partsFrom steps part.behind (ahead.dropWhile (· != '<'))

/-- The parts of a document up to the first markup that cannot be read. -/
def parts (source : String) : List Part :=
  let cs := withoutMark source.toList
  partsFrom cs.length [] cs

/-- The parts of a document as often as something is read from them. -/
def readings (source : String) : List Part := (parts source).flatMap Part.readings

/-! ### The text of a part -/

theorem readUntil_eq {σ : Type} {step : σ → Char → Option σ} {state : σ} {taken cs : List Char}
    (hstep : ∀ state c, step state c = none → c = '>')
    (h : readUntil step state taken cs = some (content, rest)) :
    taken.reverse ++ cs = content ++ '>' :: rest := by
  induction cs generalizing state taken with
  | nil => cases h
  | cons c cs ih =>
    simp only [readUntil] at h
    split at h
    · next hend =>
      obtain rfl := hstep _ _ hend
      cases h
      rfl
    · rw [← ih h, List.reverse_cons, List.append_assoc]
      rfl

theorem eq_of_tagStep (h : tagStep quote c = none) : c = '>' := by
  cases quote with
  | none =>
    simp only [tagStep] at h
    split at h
    · next hc => exact eq_of_beq hc
    · split at h <;> cases h
  | some quote =>
    simp only [tagStep] at h
    split at h <;> cases h

theorem eq_of_instructionStep (h : instructionStep asked c = none) : c = '>' := by
  simp only [instructionStep, Bool.and_eq_true, beq_iff_eq] at h
  split at h
  · next hc => exact hc.2
  · cases h

theorem eq_of_commentStep (h : commentStep state c = none) : c = '>' := by
  simp only [commentStep, Bool.and_eq_true, beq_iff_eq] at h
  split at h
  · next hc => exact hc.1.1
  · cases h

theorem eq_of_cdataStep (h : cdataStep brackets c = none) : c = '>' := by
  simp only [cdataStep, Bool.and_eq_true, beq_iff_eq] at h
  split at h
  · next hc => exact hc.1
  · cases h

theorem eq_of_doctypeStep (h : doctypeStep nested c = none) : c = '>' := by
  simp only [doctypeStep] at h
  split at h
  · cases h
  · split at h
    · next hc => exact eq_of_beq hc
    · cases h

/-- Every kind of markup ends with the same character. -/
theorem enclosed_eq (h : enclosed cs = .ok (content, rest)) : cs = content ++ '>' :: rest := by
  simp only [enclosed] at h
  split at h
  · exact readUntil_eq (fun _ _ => eq_of_cdataStep) (elim_eq_ok.1 h)
  · exact readUntil_eq (fun _ _ => eq_of_commentStep) (elim_eq_ok.1 h)
  · exact readUntil_eq (fun _ _ => eq_of_doctypeStep) (elim_eq_ok.1 h)
  · exact readUntil_eq (fun _ _ => eq_of_doctypeStep) (elim_eq_ok.1 h)
  · cases h
  · exact readUntil_eq (fun _ _ => eq_of_instructionStep) (elim_eq_ok.1 h)
  · exact readUntil_eq (fun _ _ => eq_of_tagStep) (elim_eq_ok.1 h)

/-! ### One part -/

section

variable {cs : List Char} (steps : Nat) (before : List Char)

theorem partsFrom_broken (hcs : cs.dropWhile Text.isBlank = '<' :: markup)
    (h : markupOf markup = .error defect) : partsFrom (steps + 1) before cs =
      [⟨before, cs.takeWhile Text.isBlank, .broken markup⟩] := by
  simp only [partsFrom, hcs]
  cases he : enclosed markup with
  | error => rfl
  | ok found =>
    obtain ⟨content, rest⟩ := found
    cases hp : piece content with
    | error => simp only [hp]
    | ok p => cases h.symm.trans (markupOf_eq_ok_iff.2 ⟨content, he, hp⟩)

theorem partsFrom_markup (hcs : cs.dropWhile Text.isBlank = '<' :: markup)
    (he : enclosed markup = .ok (content, rest)) (hp : piece content = .ok p) :
    partsFrom (steps + 1) before cs =
      let part : Part := ⟨before, cs.takeWhile Text.isBlank, .markup content p⟩
      part :: partsFrom steps part.behind rest := by
  simp only [partsFrom, hcs, he, hp]

theorem partsFrom_run (hcs : cs.dropWhile Text.isBlank = c :: ahead) (hc : c ≠ '<') :
    partsFrom (steps + 1) before cs =
      let part : Part := ⟨before, cs.takeWhile Text.isBlank, .run ((c :: ahead).takeWhile (· != '<'))⟩
      part :: partsFrom steps part.behind ((c :: ahead).dropWhile (· != '<')) := by
  simp only [partsFrom, hcs]
  split
  · next he => cases he
  · next he => exact absurd (List.cons.inj he).1 hc
  · rfl

end

theorem byteCount_opening (front back : List Char) :
    Text.byteCount (front ++ '<' :: back) = Text.byteCount front + (1 + Text.byteCount back) := by
  rw [Text.byteCount_append, Text.byteCount_cons]
  rfl

theorem byteCount_opening_pos (front back : List Char) : 0 < Text.byteCount (front ++ '<' :: back) := by
  rw [byteCount_opening]
  omega

/-- Before a piece of markup stands what the scanner has passed over. -/
theorem byteCount_markup (before blanks content : List Char) (p : Piece) :
    Text.byteCount (Part.mk before blanks (.markup content p)).behind =
      Text.byteCount before + Text.byteCount blanks + Text.byteCount content + 2 := by
  have hclosing : Text.byteCount ['>'] = 1 := rfl
  rw [Part.behind, Part.front, Form.written, byteCount_opening, Text.byteCount_append,
    Text.byteCount_append, hclosing]
  change Text.byteCount before + Text.byteCount blanks + (1 + (Text.byteCount content + 1)) = _
  omega

theorem byteCount_run (before blanks raw : List Char) :
    Text.byteCount (Part.mk before blanks (.run raw)).behind =
      Text.byteCount before + Text.byteCount blanks + Text.byteCount raw := by
  rw [Part.behind, Part.front, Form.written, Text.byteCount_append, Text.byteCount_append]

theorem append_eq_behind {cs : List Char} (before blanks : List Char) (form : Form)
    (h : cs = blanks ++ (form.written ++ rest)) :
    before ++ cs = (Part.mk before blanks form).behind ++ rest := by
  rw [h, Part.behind, Part.front, List.append_assoc, List.append_assoc]

/-- Every part stands in the text, and it begins with blanks. -/
theorem exists_behind_of_mem (h : p ∈ partsFrom steps before cs) :
    (∀ c ∈ p.blanks, Text.isBlank c = true) ∧ ∃ rest, before ++ cs = p.behind ++ rest := by
  induction steps generalizing before cs with
  | zero => cases h
  | succ steps ih =>
    have hcs := (List.takeWhile_append_dropWhile (p := Text.isBlank) (l := cs)).symm
    have hblank (c : Char) (hc : c ∈ cs.takeWhile Text.isBlank) : Text.isBlank c = true :=
      List.mem_takeWhile_imp hc
    match hahead : cs.dropWhile Text.isBlank with
    | [] =>
      simp only [partsFrom, hahead] at h
      cases h
    | c :: ahead =>
      rw [hahead] at hcs
      by_cases hc : c = '<'
      · subst hc
        cases hm : markupOf ahead with
        | error defect =>
          rw [partsFrom_broken _ _ hahead hm, List.mem_singleton] at h
          subst h
          refine ⟨hblank, [], append_eq_behind _ _ (.broken ahead) ?_⟩
          rwa [List.append_nil]
        | ok found =>
          obtain ⟨piece, rest⟩ := found
          obtain ⟨content, he, hp⟩ := markupOf_eq_ok_iff.1 hm
          rw [partsFrom_markup _ _ hahead he hp, List.mem_cons] at h
          have hmarkup : '<' :: ahead = (Form.markup content piece).written ++ rest := by
            rw [enclosed_eq he]
            simp [Form.written]
          rw [append_eq_behind before _ (.markup content piece) (hmarkup ▸ hcs)]
          rcases h with rfl | h
          · exact ⟨hblank, rest, rfl⟩
          · exact ih h
      · have hrun : c :: ahead = (Form.run ((c :: ahead).takeWhile (· != '<'))).written ++
            (c :: ahead).dropWhile (· != '<') := by
          rw [Form.written, List.takeWhile_append_dropWhile]
        rw [partsFrom_run _ _ hahead hc, List.mem_cons] at h
        rw [append_eq_behind before _ (.run ((c :: ahead).takeWhile (· != '<')))
          (hcs.trans (congrArg _ hrun))]
        rcases h with rfl | h
        · exact ⟨hblank, _, rfl⟩
        · exact ih h

/-! ### What is read from the parts -/

theorem gives_start {p : Part} {state : ScanState} (hp : p.tagName? = some tag.name) :
    p.Gives locate (state.start (locate (Text.byteCount p.behind)) tag).2 := by
  simp only [ScanState.start]
  split
  · exact .fault
  · exact .start hp

theorem gives_endTag {p : Part} {state : ScanState} (hp : p.tagName? = some name) :
    p.Gives locate (state.endTag first (locate (Text.byteCount p.behind)) name).2 := by
  simp only [ScanState.endTag]
  split
  · exact .fault
  · split
    · exact .finish hp
    · exact .fault

theorem gives_read (part : Part) (state : ScanState) (hform : part.form = .markup content p) :
    List.Forall₂ (Part.Gives locate) part.readings
      (state.read locate (Text.byteCount part.before) first (Text.byteCount part.behind) p).2 := by
  cases p with
  | aside => simp only [Part.readings, hform, ScanState.read, List.forall₂_nil_left_iff]
  | namelessDoctype =>
    simp only [Part.readings, hform, ScanState.read]
    exact .cons .fault .nil
  | cdata data =>
    simp only [Part.readings, hform, ScanState.read]
    exact .cons (.cdata hform) .nil
  | endTag name =>
    simp only [Part.readings, hform, ScanState.read]
    exact .cons (gives_endTag (by rw [Part.tagName?, hform])) .nil
  | startTag tag empty =>
    have hname : part.tagName? = some tag.name := by rw [Part.tagName?, hform]
    cases empty with
    | false =>
      simp only [Part.readings, hform, ScanState.read]
      exact .cons (gives_start hname) .nil
    | true =>
      simp only [Part.readings, hform, ScanState.read]
      exact .cons (gives_start hname) (.cons (.finish hname) .nil)

theorem scanFrom_gives (locate : Nat → Nat) (steps : Nat) (state : ScanState)
    (before cs : List Char) : List.Forall₂ (Part.Gives locate)
      ((partsFrom steps before cs).flatMap Part.readings)
      (scanFrom locate steps state [] (Text.byteCount before) cs) := by
  induction steps generalizing state before cs with
  | zero => exact .nil
  | succ steps ih =>
    match hahead : cs.dropWhile Text.isBlank with
    | [] =>
      rw [scanFrom_of_blank _ _ _ _ hahead]
      simp only [partsFrom, hahead]
      exact .nil
    | c :: ahead =>
      by_cases hc : c = '<'
      · subst hc
        cases hm : markupOf ahead with
        | error defect =>
          obtain ⟨first, hscan⟩ := scanFrom_defect locate steps state (Text.byteCount before) hahead hm
          rw [hscan, partsFrom_broken _ _ hahead hm]
          exact .cons .fault .nil
        | ok found =>
          obtain ⟨p, rest⟩ := found
          obtain ⟨content, he, hp⟩ := markupOf_eq_ok_iff.1 hm
          rw [partsFrom_markup _ _ hahead he hp, List.flatMap_cons,
            scanFrom_markup_eq locate steps state _ hahead he hp rfl (byteCount_markup _ _ _ p)]
          exact List.rel_append (gives_read ⟨_, _, .markup content p⟩ state rfl) (ih ..)
      · rw [partsFrom_run _ _ hahead hc, dropWhile_cons_run hc, List.flatMap_cons,
          scanFrom_text_eq locate steps state _ hahead hc (byteCount_run ..)]
        exact .cons (.text rfl) (ih ..)

/-! ### A whole document -/

/-- The byte order mark that a text begins with, if it does. -/
def byteOrderMark : List Char → List Char
  | '\ufeff' :: _ => ['\ufeff']
  | _ => []

theorem byteOrderMark_append (cs : List Char) : byteOrderMark cs ++ withoutMark cs = cs := by
  unfold byteOrderMark
  split
  · rfl
  · next h =>
    unfold withoutMark
    split
    · next cs => exact absurd rfl (h cs)
    · rfl

theorem mem_parts_of_reading (h : p ∈ readings source) : p ∈ parts source := by
  obtain ⟨part, hpart, hp⟩ := List.mem_flatMap.1 h
  have heq : p = part := by
    unfold Part.readings at hp
    split at hp <;> simp_all
  rwa [heq]

theorem blank_of_reading (h : p ∈ readings source) : ∀ c ∈ p.blanks, Text.isBlank c = true :=
  (exists_behind_of_mem (mem_parts_of_reading h)).1

theorem exists_behind_of_reading (h : p ∈ readings source) :
    ∃ rest, source.toList = byteOrderMark source.toList ++ (p.behind ++ rest) := by
  obtain ⟨-, rest, hrest⟩ := exists_behind_of_mem (mem_parts_of_reading h)
  rw [List.nil_append] at hrest
  exact ⟨rest, by rw [← hrest, byteOrderMark_append]⟩

/-- The place that a tag is given by its end. -/
def locate (source : String) : Nat → Nat := openingBefore source (offsetsOf '<' source.toList)

theorem events_given (source : String) :
    List.Forall₂ (Part.Gives (locate source)) (readings source) (events source) :=
  scanFrom_gives ..

end ManagementScript.Xml
