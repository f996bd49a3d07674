import Mathlib.Data.List.DropRight
import Mathlib.Data.List.TakeDrop
import ManagementScript.Proofs.Result
import ManagementScript.Xml.Event

/-!
The steps of the scanner: each is over a run of character data or over a piece of markup. What is read of
a text is told by its steps.
-/

namespace ManagementScript.Xml

/-! ### Runs of character data -/

theorem head_dropWhile_opening {cs : List Char} (h : cs.dropWhile (· != '<') = c :: rest) :
    c = '<' := by
  have hhead := List.head_dropWhile_not (· != '<') (show cs.dropWhile (· != '<') ≠ [] by simp [h])
  simpa [h] using hhead

theorem dropWhile_cons_run (hc : c ≠ '<') (ahead : List Char) :
    (c :: ahead).dropWhile (· != '<') = ahead.dropWhile (· != '<') :=
  List.dropWhile_cons_of_pos (bne_iff_ne.2 hc)

theorem dropWhile_isBlank (cs : List Char) :
    (cs.dropWhile Text.isBlank).dropWhile (· != '<') = cs.dropWhile (· != '<') := by
  induction cs with
  | nil => rfl
  | cons c cs ih =>
    by_cases hb : Text.isBlank c = true
    · have hc : (c != '<') = true := by
        simp only [bne_iff_ne, ne_eq]
        rintro rfl
        revert hb
        decide
      rw [List.dropWhile_cons_of_pos hb, ih, List.dropWhile_cons_of_pos (p := (· != '<')) hc]
    · rw [List.dropWhile_cons_of_neg hb]

theorem dropWhile_isBlank_eq (cs : List Char) : cs.dropWhile Text.isBlank =
    (cs.takeWhile (· != '<')).dropWhile Text.isBlank ++ cs.dropWhile (· != '<') := by
  induction cs with
  | nil => rfl
  | cons c cs ih =>
    by_cases hc : c = '<'
    · subst hc
      rfl
    · have hp : (c != '<') = true := bne_iff_ne.2 hc
      simp only [List.takeWhile_cons, List.dropWhile_cons, hp, ↓reduceIte]
      by_cases hb : Text.isBlank c = true
      · rw [if_pos hb, if_pos hb, ih]
      · rw [if_neg hb, if_neg hb, List.cons_append, List.takeWhile_append_dropWhile]

theorem span_run {raw : List Char} (hraw : ∀ c ∈ raw, c ≠ '<') (cs : List Char) :
    (raw ++ cs.dropWhile (· != '<')).takeWhile (· != '<') = raw ∧
      (raw ++ cs.dropWhile (· != '<')).dropWhile (· != '<') = cs.dropWhile (· != '<') := by
  induction raw with
  | nil =>
    rw [List.nil_append, List.dropWhile_idempotent]
    refine ⟨?_, rfl⟩
    cases h : cs.dropWhile (· != '<') with
    | nil => rfl
    | cons c rest =>
      obtain rfl := head_dropWhile_opening h
      rfl
  | cons c raw ih =>
    obtain ⟨hc, hraw⟩ := List.forall_mem_cons.1 hraw
    have hp : (c != '<') = true := bne_iff_ne.2 hc
    simp only [List.cons_append, List.takeWhile_cons, List.dropWhile_cons, hp, ↓reduceIte,
      (ih hraw).1, true_and]
    exact (ih hraw).2

theorem span_markup {run : List Char} (hrun : ∀ c ∈ run, c ≠ '<') (markup : List Char) :
    (run ++ '<' :: markup).takeWhile (· != '<') = run ∧
      (run ++ '<' :: markup).dropWhile (· != '<') = '<' :: markup :=
  span_run hrun ('<' :: markup)

theorem exists_run {cs : List Char} (h : cs.dropWhile (· != '<') = '<' :: markup) :
    ∃ run, cs = run ++ '<' :: markup ∧ ∀ c ∈ run, c ≠ '<' := by
  refine ⟨cs.takeWhile (· != '<'), ?_, fun c hc => ?_⟩
  · rw [← h, List.takeWhile_append_dropWhile]
  · simpa using List.mem_takeWhile_imp hc

/-! ### Markup -/

/-- What is read up to a place does not depend on what stands behind that place. -/
theorem readUntil_split {σ : Type} {step : σ → Char → Option σ} {state : σ} {taken cs : List Char}
    (h : readUntil step state taken cs = some (content, rest)) :
    ∃ c used, cs = c :: used ++ rest ∧
      ∀ back, readUntil step state taken (c :: used ++ back) = some (content, back) := by
  induction cs generalizing state taken with
  | nil => cases h
  | cons c cs ih =>
    simp only [readUntil] at h
    cases hc : step state c with
    | none =>
      rw [hc] at h
      cases h
      refine ⟨c, [], rfl, fun back => ?_⟩
      rw [List.cons_append, readUntil, hc]
      rfl
    | some state' =>
      rw [hc] at h
      obtain ⟨c', used, rfl, hback⟩ := ih h
      refine ⟨c, c' :: used, rfl, fun back => ?_⟩
      rw [List.cons_append, readUntil, hc]
      exact hback back

theorem elim_eq_ok {read : Option α} {defect : Defect} :
    read.elim (.error defect) .ok = (.ok a : Except Defect α) ↔ read = some a := by
  cases read <;> simp

theorem enclosed_split (h : enclosed cs = .ok (content, rest)) :
    ∃ used, cs = used ++ rest ∧ ∀ back, enclosed (used ++ back) = .ok (content, back) := by
  -- The first characters, which tell what the markup is, do not end it.
  simp only [enclosed] at h
  split at h
  · obtain ⟨c, used, rfl, hback⟩ :=
      @readUntil_split _ _ _ cdataStep 0 ['[', '!'] _ (elim_eq_ok.1 h)
    exact ⟨'!' :: '[' :: c :: used, rfl, fun back => elim_eq_ok.2 (hback back)⟩
  · obtain ⟨c, used, rfl, hback⟩ :=
      @readUntil_split _ _ _ commentStep (2, 1) ['-', '!'] _ (elim_eq_ok.1 h)
    exact ⟨'!' :: '-' :: c :: used, rfl, fun back => elim_eq_ok.2 (hback back)⟩
  · obtain ⟨c, used, rfl, hback⟩ :=
      @readUntil_split _ _ _ doctypeStep 0 ['D', '!'] _ (elim_eq_ok.1 h)
    exact ⟨'!' :: 'D' :: c :: used, rfl, fun back => elim_eq_ok.2 (hback back)⟩
  · obtain ⟨c, used, rfl, hback⟩ :=
      @readUntil_split _ _ _ doctypeStep 0 ['d', '!'] _ (elim_eq_ok.1 h)
    exact ⟨'!' :: 'd' :: c :: used, rfl, fun back => elim_eq_ok.2 (hback back)⟩
  · cases h
  · obtain ⟨c, used, rfl, hback⟩ :=
      @readUntil_split _ _ _ instructionStep true ['?'] _ (elim_eq_ok.1 h)
    exact ⟨'?' :: c :: used, rfl, fun back => elim_eq_ok.2 (hback back)⟩
  · next hbang hasked =>
    obtain ⟨c, used, rfl, hback⟩ := readUntil_split (elim_eq_ok.1 h)
    have hc : c ≠ '!' := fun he => hbang (used ++ rest) (he ▸ rfl)
    have hc' : c ≠ '?' := fun he => hasked (used ++ rest) (he ▸ rfl)
    refine ⟨c :: used, rfl, fun back => ?_⟩
    rw [List.cons_append, enclosed]
    · exact elim_eq_ok.2 (hback back)
    all_goals simp [hc, hc']

theorem enclosed_append (h : enclosed cs = .ok (content, rest)) (back : List Char) :
    enclosed (cs ++ back) = .ok (content, rest ++ back) := by
  obtain ⟨used, rfl, hback⟩ := enclosed_split h
  rw [List.append_assoc]
  exact hback _

/-- The markup that stands behind a `<`, and what follows it. -/
def markupOf (cs : List Char) : Except Defect (Piece × List Char) := do
  let (content, rest) ← enclosed cs
  return (← piece content, rest)

theorem markupOf_eq_ok_iff : markupOf cs = .ok (p, rest) ↔
    ∃ content, enclosed cs = .ok (content, rest) ∧ piece content = .ok p := by
  simp only [markupOf, bind_eq_ok_iff, Prod.exists, pure, Except.pure]
  apply Iff.intro
  · intro h
    obtain ⟨content, rest', he, p', hp, h⟩ := h
    cases h
    exact ⟨content, he, hp⟩
  · intro h
    obtain ⟨content, he, hp⟩ := h
    exact ⟨content, rest, he, p, hp, rfl⟩

theorem exists_defect
    (h : ∀ content rest p, enclosed cs = .ok (content, rest) → piece content ≠ .ok p) :
    ∃ defect, markupOf cs = .error defect := by
  cases hm : markupOf cs with
  | error defect => exact ⟨defect, rfl⟩
  | ok found =>
    obtain ⟨content, he, hp⟩ := markupOf_eq_ok_iff.1 hm
    exact absurd hp (h _ _ _ he)

theorem suffix_of_markupOf (h : markupOf cs = .ok (p, rest)) : rest <:+ cs := by
  obtain ⟨content, he, _⟩ := markupOf_eq_ok_iff.1 h
  obtain ⟨used, rfl, _⟩ := enclosed_split he
  exact ⟨used, rfl⟩

/-! ### One step -/

/-- What the scanner finds is behind what it has found before. -/
theorem scanFrom_found (locate : Nat → Nat) (steps : Nat) (state : ScanState) (found : List Event)
    (offset : Nat) (cs : List Char) : scanFrom locate steps state found offset cs =
      found.reverse ++ scanFrom locate steps state [] offset cs := by
  induction steps generalizing state found offset cs with
  | zero => exact (List.append_nil _).symm
  | succ steps ih =>
    have hbehind (more : List Event) (state : ScanState) (offset : Nat) (cs : List Char) :
        scanFrom locate steps state (more ++ found) offset cs =
          found.reverse ++ scanFrom locate steps state more offset cs := by
      rw [ih, ih state more, List.reverse_append, List.append_assoc]
    simp only [scanFrom]
    split
    · exact (List.append_nil _).symm
    · split
      · exact List.reverse_cons
      split
      · exact List.reverse_cons
      · exact hbehind [] ..
      · exact hbehind [_] ..
      · exact hbehind [_] ..
      · exact hbehind [_] ..
      · split
        · exact hbehind [_, _] ..
        · exact hbehind [_] ..
    · exact hbehind [_] ..

namespace ScanState

/-- What the scanner finds in a piece of markup that stands between `first` and `next`; the text
before it begins at `offset`. -/
def read (state : ScanState) (locate : Nat → Nat) (offset first next : Nat) :
    Piece → ScanState × List Event
  | .aside => (state, [])
  | .namelessDoctype =>
    ((state.fault (next - 1) .namelessDoctype).1, [(state.fault (next - 1) .namelessDoctype).2])
  | .cdata content => (state, [.cdata offset content])
  | .endTag name =>
    ((state.endTag first (locate next) name).1, [(state.endTag first (locate next) name).2])
  | .startTag tag false => ((state.start (locate next) tag).1, [(state.start (locate next) tag).2])
  | .startTag tag true =>
    let opened := state.start (locate next) tag
    let closed := opened.1.finish (locate next) tag.name
    (closed.1, [opened.2, closed.2])

theorem start_of_declared {state : ScanState}
    (h : (state.scope.declareAll (tag.attributes false).1).2 = none) :
    state.start offset tag =
      let scope := (state.scope.declareAll (tag.attributes false).1).1
      ({ state with opened := tag.name :: state.opened, scopes := scope :: state.scopes },
        .start offset (scope.resolveElement tag.name) tag scope) := by
  simp only [start, h]

end ScanState

section

variable (locate : Nat → Nat) (steps : Nat) (state : ScanState) (offset : Nat) {cs : List Char}

theorem scanFrom_markup_eq (hcs : cs.dropWhile Text.isBlank = '<' :: markup)
    (he : enclosed markup = .ok (content, rest)) (hp : piece content = .ok p)
    (hfirst : first = offset + Text.byteCount (cs.takeWhile Text.isBlank))
    (hnext : next = first + Text.byteCount content + 2) :
    scanFrom locate (steps + 1) state [] offset cs = (state.read locate offset first next p).2 ++
      scanFrom locate steps (state.read locate offset first next p).1 [] next rest := by
  subst hfirst hnext
  simp only [scanFrom, spanBytes, List.span_eq_takeWhile_dropWhile, hcs, he, hp]
  cases p with
  | aside => rfl
  | namelessDoctype | cdata | endTag => exact scanFrom_found _ _ _ [_] _ _
  | startTag tag empty =>
    cases empty with
    | true => exact scanFrom_found _ _ _ [_, _] _ _
    | false => exact scanFrom_found _ _ _ [_] _ _

theorem scanFrom_markup (hcs : cs.dropWhile Text.isBlank = '<' :: markup)
    (hm : markupOf markup = .ok (p, rest)) :
    ∃ first next, scanFrom locate (steps + 1) state [] offset cs =
      (state.read locate offset first next p).2 ++
        scanFrom locate steps (state.read locate offset first next p).1 [] next rest := by
  obtain ⟨content, he, hp⟩ := markupOf_eq_ok_iff.1 hm
  exact ⟨_, _, scanFrom_markup_eq locate steps state offset hcs he hp rfl rfl⟩

theorem scanFrom_defect (hcs : cs.dropWhile Text.isBlank = '<' :: markup)
    (h : markupOf markup = .error defect) :
    ∃ first, scanFrom locate (steps + 1) state [] offset cs = [.fault first defect] := by
  simp only [scanFrom, spanBytes, List.span_eq_takeWhile_dropWhile, hcs]
  simp only [markupOf] at h
  cases he : enclosed markup with
  | error defect' =>
    rw [he] at h
    cases h
    exact ⟨_, rfl⟩
  | ok read =>
    obtain ⟨content, rest⟩ := read
    rw [he] at h
    cases hp : piece content with
    | error defect' =>
      simp only [hp, bind, Except.bind] at h
      cases h
      exact ⟨_, by simp only [hp]; rfl⟩
    | ok p =>
      simp only [hp, bind, Except.bind, pure, Except.pure] at h
      cases h

theorem scanFrom_text_eq (hcs : cs.dropWhile Text.isBlank = c :: ahead) (hc : c ≠ '<')
    (hnext : next = offset + Text.byteCount (cs.takeWhile Text.isBlank) +
      Text.byteCount ((c :: ahead).takeWhile (· != '<'))) :
    scanFrom locate (steps + 1) state [] offset cs =
      .text offset (Text.trimEnd Text.isBlank ((c :: ahead).takeWhile (· != '<'))) ::
        scanFrom locate steps state [] next (ahead.dropWhile (· != '<')) := by
  subst hnext
  rw [← dropWhile_cons_run hc]
  simp only [scanFrom, spanBytes, List.span_eq_takeWhile_dropWhile, hcs]
  split
  · next he => cases he
  · next he => exact absurd (List.cons.inj he).1 hc
  · exact scanFrom_found _ _ _ [_] _ _

theorem scanFrom_text (hcs : cs.dropWhile Text.isBlank = c :: ahead) (hc : c ≠ '<') :
    ∃ next, scanFrom locate (steps + 1) state [] offset cs =
      .text offset (Text.trimEnd Text.isBlank ((c :: ahead).takeWhile (· != '<'))) ::
        scanFrom locate steps state [] next (ahead.dropWhile (· != '<')) :=
  ⟨_, scanFrom_text_eq locate steps state offset hcs hc rfl⟩

theorem scanFrom_blank (hcs : cs.dropWhile Text.isBlank = []) :
    scanFrom locate (steps + 1) state [] offset cs = [] := by
  simp only [scanFrom, spanBytes, List.span_eq_takeWhile_dropWhile, hcs]
  rfl

/-- What is read of a text in front of which the scanner remembers `state`, by its first step. -/
inductive ScanStep (cs : List Char) : List Event → Prop where
  | blank (hcs : cs.dropWhile Text.isBlank = []) : ScanStep cs []
  | defect (first : Nat) (hcs : cs.dropWhile Text.isBlank = '<' :: markup)
      (hm : markupOf markup = .error defect) : ScanStep cs [.fault first defect]
  | markup (first next : Nat) (hcs : cs.dropWhile Text.isBlank = '<' :: markup)
      (hm : markupOf markup = .ok (p, rest)) :
      ScanStep cs ((state.read locate offset first next p).2 ++
        scanFrom locate steps (state.read locate offset first next p).1 [] next rest)
  | text (next : Nat) (hcs : cs.dropWhile Text.isBlank = c :: ahead) (hc : c ≠ '<') :
      ScanStep cs (.text offset (Text.trimEnd Text.isBlank ((c :: ahead).takeWhile (· != '<'))) ::
        scanFrom locate steps state [] next (ahead.dropWhile (· != '<')))

theorem scanFrom_step (cs : List Char) :
    ScanStep locate steps state offset cs (scanFrom locate (steps + 1) state [] offset cs) := by
  match hcs : cs.dropWhile Text.isBlank with
  | [] =>
    rw [scanFrom_blank locate steps state offset hcs]
    exact .blank hcs
  | c :: ahead =>
    by_cases hc : c = '<'
    · subst hc
      cases hm : markupOf ahead with
      | error defect =>
        obtain ⟨first, hscan⟩ := scanFrom_defect locate steps state offset hcs hm
        rw [hscan]
        exact .defect first hcs hm
      | ok found =>
        obtain ⟨first, next, hscan⟩ := scanFrom_markup locate steps state offset hcs hm
        rw [hscan]
        exact .markup first next hcs hm
    · obtain ⟨next, hscan⟩ := scanFrom_text locate steps state offset hcs hc
      rw [hscan]
      exact .text next hcs hc

theorem scanFrom_of_blank (hcs : cs.dropWhile Text.isBlank = []) :
    scanFrom locate steps state [] offset cs = [] := by
  cases steps with
  | zero => rfl
  | succ steps => exact scanFrom_blank locate steps state offset hcs

end

end ManagementScript.Xml
