import ManagementScript.Proofs.Tree.Resemblance

/-!
What is read from a text, told without the places it is read at. It depends on the text and on what the
scanner remembers of the text before, so a text can be read part by part.
-/

namespace ManagementScript

namespace Xml

/-- The event, wherever it is. -/
def Event.unplaced : Event → Event
  | .start _ name tag scope => .start 0 name tag scope
  | .finish _ name => .finish 0 name
  | .text _ raw => .text 0 raw
  | .cdata _ content => .cdata 0 content
  | .fault _ defect => .fault 0 defect

namespace ScanState

/-- What is remembered of a text except for places. -/
def unplaced (state : ScanState) : ScanState := { state with defectOffset := 0 }

/-- What is found in a piece of markup, wherever it is. -/
def find (state : ScanState) (p : Piece) : ScanState × List Event :=
  let found := state.read (fun _ => 0) 0 0 0 p
  (found.1.unplaced, found.2.map Event.unplaced)

theorem start_unplaced (state : ScanState) (offset : Nat) (tag : TagText) :
    (state.start offset tag).1.unplaced = (state.unplaced.start 0 tag).1.unplaced ∧
      (state.start offset tag).2.unplaced = (state.unplaced.start 0 tag).2.unplaced := by
  have hscope : state.unplaced.scope = state.scope := rfl
  simp only [start, hscope]
  split
  · exact ⟨rfl, rfl⟩
  · exact ⟨rfl, rfl⟩

theorem endTag_unplaced (state : ScanState) (first offset : Nat) (name : List Char) :
    (state.endTag first offset name).1.unplaced = (state.unplaced.endTag 0 0 name).1.unplaced ∧
      (state.endTag first offset name).2.unplaced = (state.unplaced.endTag 0 0 name).2.unplaced := by
  have hopened : state.unplaced.opened = state.opened := rfl
  simp only [endTag, hopened]
  split
  · exact ⟨rfl, rfl⟩
  · split
    · exact ⟨rfl, rfl⟩
    · exact ⟨rfl, rfl⟩

theorem finish_unplaced {state state' : ScanState} (h : state.unplaced = state'.unplaced)
    (offset offset' : Nat) (name : List Char) :
    (state.finish offset name).1.unplaced = (state'.finish offset' name).1.unplaced ∧
      (state.finish offset name).2.unplaced = (state'.finish offset' name).2.unplaced := by
  cases state
  cases state'
  cases h
  exact ⟨rfl, rfl⟩

/-- Where a piece of markup is found matters for the places of what is found only. -/
theorem read_unplaced (state : ScanState) (locate : Nat → Nat) (offset first next : Nat) (p : Piece) :
    (state.read locate offset first next p).1.unplaced = (state.unplaced.find p).1 ∧
      (state.read locate offset first next p).2.map Event.unplaced = (state.unplaced.find p).2 := by
  cases p with
  | aside | namelessDoctype | cdata => exact ⟨rfl, rfl⟩
  | endTag name =>
    obtain ⟨hstate, hevent⟩ := state.endTag_unplaced first (locate next) name
    exact ⟨hstate, congrArg ([·]) hevent⟩
  | startTag tag empty =>
    obtain ⟨hstate, hevent⟩ := state.start_unplaced (locate next) tag
    cases empty with
    | false => exact ⟨hstate, congrArg ([·]) hevent⟩
    | true =>
      obtain ⟨hclosed, hclosing⟩ := finish_unplaced hstate (locate next) 0 tag.name
      exact ⟨hclosed, congrArg₂ ([·, ·]) hevent hclosing⟩

end ScanState

/-- What is read from `cs` by a scanner that remembers `state`. -/
def reading (state : ScanState) (cs : List Char) : List Event :=
  (scanFrom (fun _ => 0) cs.length state [] 0 cs).map Event.unplaced

/-! ### One step -/

/-- The scanner reads the same wherever it is and however far it may go, up to the end. -/
theorem unplaced_scanFrom {state state' : ScanState} {cs : List Char} {steps steps' : Nat}
    (hs : state.unplaced = state'.unplaced) (hlen : cs.length ≤ steps) (hlen' : cs.length ≤ steps')
    (locate locate' : Nat → Nat) (offset offset' : Nat) :
    (scanFrom locate steps state [] offset cs).map Event.unplaced =
      (scanFrom locate' steps' state' [] offset' cs).map Event.unplaced := by
  induction steps generalizing cs state state' steps' offset offset' with
  | zero =>
    obtain rfl := List.eq_nil_of_length_eq_zero (Nat.le_zero.1 hlen)
    rw [scanFrom_of_blank _ _ _ _ rfl, scanFrom_of_blank _ _ _ _ rfl]
  | succ steps ih =>
    have hdrop := (List.dropWhile_sublist Text.isBlank (l := cs)).length_le
    match hcs : cs.dropWhile Text.isBlank with
    | [] => rw [scanFrom_of_blank _ _ _ _ hcs, scanFrom_of_blank _ _ _ _ hcs]
    | c :: ahead =>
      rw [hcs, List.length_cons] at hdrop
      obtain ⟨steps', rfl⟩ := Nat.exists_eq_add_one.2 (show 0 < steps' by omega)
      by_cases hc : c = '<'
      · subst hc
        cases hm : markupOf ahead with
        | error defect =>
          obtain ⟨first, hscan⟩ := scanFrom_defect locate steps state offset hcs hm
          obtain ⟨first', hscan'⟩ := scanFrom_defect locate' steps' state' offset' hcs hm
          rw [hscan, hscan']
          rfl
        | ok found =>
          obtain ⟨p, rest⟩ := found
          have hrest := (suffix_of_markupOf hm).length_le
          obtain ⟨first, next, hscan⟩ := scanFrom_markup locate steps state offset hcs hm
          obtain ⟨first', next', hscan'⟩ := scanFrom_markup locate' steps' state' offset' hcs hm
          obtain ⟨hstate, hevents⟩ := state.read_unplaced locate offset first next p
          obtain ⟨hstate', hevents'⟩ := state'.read_unplaced locate' offset' first' next' p
          rw [hs] at hstate hevents
          rw [hscan, hscan', List.map_append, List.map_append, hevents, hevents']
          exact congrArg _ (ih (hstate.trans hstate'.symm) (by omega) (by omega) _ _)
      · obtain ⟨next, hscan⟩ := scanFrom_text locate steps state offset hcs hc
        obtain ⟨next', hscan'⟩ := scanFrom_text locate' steps' state' offset' hcs hc
        have hrest := (List.dropWhile_sublist (· != '<') (l := ahead)).length_le
        rw [hscan, hscan', List.map_cons, List.map_cons]
        exact congrArg _ (ih hs (by omega) (by omega) _ _)

/-- What is read from a whole document. -/
theorem unplaced_events (source : String) :
    (events source).map Event.unplaced = reading .initial (withoutMark source.toList) :=
  unplaced_scanFrom rfl (Nat.le_refl _) (Nat.le_refl _) _ _ _ _

section

variable {state : ScanState} {cs : List Char}

theorem map_scanFrom {state' : ScanState} (hs : state'.unplaced = state.unplaced) {steps : Nat}
    (hlen : cs.length ≤ steps) (locate : Nat → Nat) (offset : Nat) :
    (scanFrom locate steps state' [] offset cs).map Event.unplaced = reading state cs :=
  unplaced_scanFrom hs hlen (Nat.le_refl _) _ _ _ _

theorem reading_congr {state' : ScanState} (h : state.unplaced = state'.unplaced) :
    reading state cs = reading state' cs :=
  unplaced_scanFrom h (Nat.le_refl _) (Nat.le_refl _) ..

theorem reading_of_blank (hcs : cs.dropWhile Text.isBlank = []) : reading state cs = [] := by
  rw [reading, scanFrom_of_blank _ _ _ _ hcs]
  rfl

theorem length_pos_of_dropWhile {p : Char → Bool} (hcs : cs.dropWhile p = c :: ahead) :
    ∃ steps, cs.length = steps + 1 ∧ ahead.length ≤ steps := by
  have hle := (List.dropWhile_sublist p (l := cs)).length_le
  rw [hcs, List.length_cons] at hle
  exact ⟨cs.length - 1, by omega, by omega⟩

theorem reading_markup (hcs : cs.dropWhile Text.isBlank = '<' :: markup)
    (h : markupOf markup = .ok (p, rest)) :
    reading state cs = (state.unplaced.find p).2 ++ reading (state.unplaced.find p).1 rest := by
  obtain ⟨steps, hsteps, hle⟩ := length_pos_of_dropWhile hcs
  obtain ⟨first, next, hscan⟩ := scanFrom_markup (fun _ => 0) steps state 0 hcs h
  obtain ⟨hstate, hevents⟩ := state.read_unplaced (fun _ => 0) 0 first next p
  have hrest := (suffix_of_markupOf h).length_le
  have hfound : (state.read (fun _ => 0) 0 first next p).1.unplaced =
      (state.unplaced.find p).1.unplaced := hstate
  rw [reading, hsteps, hscan, List.map_append, hevents]
  refine congrArg _ (map_scanFrom hfound ?_ _ _)
  omega

theorem reading_defect (hcs : cs.dropWhile Text.isBlank = '<' :: markup)
    (h : markupOf markup = .error defect) : reading state cs = [.fault 0 defect] := by
  obtain ⟨steps, hsteps, _⟩ := length_pos_of_dropWhile hcs
  obtain ⟨first, hscan⟩ := scanFrom_defect (fun _ => 0) steps state 0 hcs h
  rw [reading, hsteps, hscan]
  rfl

theorem reading_text (hcs : cs.dropWhile Text.isBlank = c :: ahead) (hc : c ≠ '<') :
    reading state cs =
      .text 0 (Text.trimEnd Text.isBlank ((c :: ahead).takeWhile (· != '<'))) ::
        reading state (ahead.dropWhile (· != '<')) := by
  obtain ⟨steps, hsteps, hle⟩ := length_pos_of_dropWhile hcs
  obtain ⟨next, hscan⟩ := scanFrom_text (fun _ => 0) steps state 0 hcs hc
  have hrest := (List.dropWhile_sublist (· != '<') (l := ahead)).length_le
  rw [reading, hsteps, hscan, List.map_cons]
  refine congrArg _ (unplaced_scanFrom rfl ?_ (Nat.le_refl _) ..)
  omega

/-- Blanks are passed over. -/
theorem reading_dropWhile : reading state (cs.dropWhile Text.isBlank) = reading state cs := by
  have htwice : (cs.dropWhile Text.isBlank).dropWhile Text.isBlank = cs.dropWhile Text.isBlank :=
    List.dropWhile_idempotent ..
  match hcs : cs.dropWhile Text.isBlank with
  | [] => rw [reading_of_blank hcs, reading_of_blank rfl]
  | c :: ahead =>
    rw [hcs] at htwice
    by_cases hc : c = '<'
    · subst hc
      cases hm : markupOf ahead with
      | error defect => rw [reading_defect hcs hm, reading_defect htwice hm]
      | ok found => rw [reading_markup hcs hm, reading_markup htwice hm]
    · rw [reading_text hcs hc, reading_text htwice hc]

end

/-! ### Part by part -/

/-- What is read from a run of character data that markup follows. -/
def runEvents (run : List Char) : List Event :=
  match Text.trim Text.isBlank run with
  | [] => []
  | raw => [.text 0 raw]

theorem trim_ne_nil {run : List Char} (h : run.dropWhile Text.isBlank = c :: raw) :
    Text.trim Text.isBlank run ≠ [] := by
  have hc : Text.isBlank c = false := by
    have hhead := List.head_dropWhile_not Text.isBlank (show run.dropWhile Text.isBlank ≠ [] by simp [h])
    simpa [h] using hhead
  rw [Text.trim, h, Text.trimEnd]
  intro hnil
  have hblank := List.dropWhile_eq_nil_iff.1 (List.reverse_eq_nil_iff.1 hnil) c (by simp)
  rw [hc] at hblank
  cases hblank

theorem runEvents_of_blank {run : List Char} (h : run.dropWhile Text.isBlank = []) :
    runEvents run = [] := by
  rw [runEvents, Text.trim, h]
  rfl

theorem runEvents_of_ne_blank {run : List Char} (h : run.dropWhile Text.isBlank = c :: raw) :
    runEvents run = [.text 0 (Text.trim Text.isBlank run)] := by
  have hne := trim_ne_nil h
  rw [runEvents]
  split
  · next hnil => exact absurd hnil hne
  · rfl

theorem reading_run {state : ScanState} {run : List Char} (hrun : ∀ c ∈ run, c ≠ '<')
    (rest : List Char) :
    reading state (run ++ '<' :: rest) = runEvents run ++ reading state ('<' :: rest) := by
  match hblank : run.dropWhile Text.isBlank with
  | [] =>
    have hdrop : (run ++ '<' :: rest).dropWhile Text.isBlank = '<' :: rest := by
      rw [List.dropWhile_append, hblank]
      rfl
    rw [runEvents_of_blank hblank, ← reading_dropWhile, hdrop, List.nil_append]
  | c :: raw =>
    have hdrop : (run ++ '<' :: rest).dropWhile Text.isBlank = c :: (raw ++ '<' :: rest) := by
      rw [List.dropWhile_append, hblank]
      rfl
    have hmem (x : Char) (hx : x ∈ c :: raw) : x ≠ '<' :=
      hrun x ((hblank ▸ List.dropWhile_sublist Text.isBlank).subset hx)
    have hspan := span_markup hmem rest
    have hraw := span_markup (fun x hx => hmem x (List.mem_cons_of_mem _ hx)) rest
    rw [runEvents_of_ne_blank hblank, reading_text hdrop (hmem c (List.mem_cons_self ..)), hraw.2,
      ← List.cons_append, hspan.1, Text.trim, hblank]
    rfl

/-- In front of whatever follows, the events are read from `front`, behind which the scanner remembers
`state'`. -/
def Passes (state : ScanState) (front : List Char) (es : List Event) (state' : ScanState) : Prop :=
  ∀ rest, reading state (front ++ rest) = es ++ reading state' rest

namespace Passes

theorem nil (state : ScanState) : Passes state [] [] state := fun _ => rfl

theorem append (h : Passes state front es state') (h' : Passes state' front' es' state'') :
    Passes state (front ++ front') (es ++ es') state'' := by
  intro rest
  rw [List.append_assoc, h, h', List.append_assoc]

theorem markup {state : ScanState} {content : List Char}
    (he : ∀ rest, enclosed (content ++ '>' :: rest) = .ok (content, rest))
    (hp : piece content = .ok p) :
    Passes state ('<' :: (content ++ ['>'])) (state.unplaced.find p).2 (state.unplaced.find p).1 := by
  intro rest
  have hm : markupOf (content ++ ['>'] ++ rest) = .ok (p, rest) := by
    rw [List.append_assoc]
    exact markupOf_eq_ok_iff.2 ⟨content, he rest, hp⟩
  exact reading_markup rfl hm

end Passes

end Xml

/-- What the cursor has not read, told without the places. -/
def Cursor.marks (c : Cursor) : List Xml.Event := c.pending.map Xml.Event.unplaced

namespace Cursor

theorem marks_ofString (source : String) :
    (ofString source).marks = Xml.reading .initial (Xml.withoutMark source.toList) :=
  Xml.unplaced_events source

end Cursor

end ManagementScript
