import ManagementScript.Proofs.Tree.Heads
import ManagementScript.Proofs.Tree.Insert
import ManagementScript.Proofs.Tree.References
import ManagementScript.Proofs.Tree.Trimming

/-!
The text of an element that no other element is inside of. Each run of its character data is read
without the blanks around it, so a text that is written in several runs loses the blanks where two of
them meet.
-/

namespace ManagementScript

namespace Xml

/-! ### Runs -/

/-- The blanks that a run of character data begins and ends with. -/
def leadingBlanks (run : List Char) : List Char := run.takeWhile Text.isBlank

def trailingBlanks (run : List Char) : List Char :=
  (run.dropWhile Text.isBlank).rtakeWhile Text.isBlank

theorem blank_of_mem_leading (h : c ∈ leadingBlanks run) : Text.isBlank c = true :=
  List.mem_takeWhile_imp h

theorem blank_of_mem_trailing (h : c ∈ trailingBlanks run) : Text.isBlank c = true :=
  List.mem_rtakeWhile_imp h

theorem run_eq (run : List Char) :
    run = leadingBlanks run ++ (Text.trim Text.isBlank run ++ trailingBlanks run) := by
  have hinner : Text.trim Text.isBlank run = (run.dropWhile Text.isBlank).rdropWhile Text.isBlank :=
    rfl
  rw [hinner, trailingBlanks, List.rdropWhile_append_rtakeWhile, leadingBlanks,
    List.takeWhile_append_dropWhile]

theorem ne_of_isBlank (h : Text.isBlank c = true) : c ≠ ';' ∧ c ≠ '&' := by
  constructor
  · rintro rfl
    cases h
  · rintro rfl
    cases h

/-- The blanks around a run stand for themselves. -/
theorem Resolves.framed {run : List Char} (h : Resolves run out) :
    ∃ inner, Resolves (Text.trim Text.isBlank run) inner ∧
      out = leadingBlanks run ++ (inner ++ trailingBlanks run) := by
  have hlead : Resolves (leadingBlanks run) (leadingBlanks run) :=
    resolves_self fun c hc => (ne_of_isBlank (blank_of_mem_leading hc)).2
  rw [run_eq run] at h
  obtain ⟨rest, hrest, rfl⟩ := hlead.behind h
  obtain ⟨inner, hinner, rfl⟩ := hrest.before fun c hc => ne_of_isBlank (blank_of_mem_trailing hc)
  exact ⟨inner, hinner, rfl⟩

/-- The characters that a run stands for. Those of them that are read are marked. -/
def markedRun (run : List Char) : Except ReferenceDefect (List (Char × Bool)) := do
  let inner ← resolveReferences (Text.trim Text.isBlank run)
  return (leadingBlanks run).map (·, false) ++
    (inner.toList.map (·, true) ++ (trailingBlanks run).map (·, false))

theorem markedRun_eq_ok_iff : markedRun run = .ok marked ↔
    ∃ inner, Resolves (Text.trim Text.isBlank run) inner ∧
      marked = (leadingBlanks run).map (·, false) ++
        (inner.map (·, true) ++ (trailingBlanks run).map (·, false)) := by
  simp only [markedRun, bind_eq_ok_iff, pure, Except.pure, Except.ok.injEq]
  apply Iff.intro
  · intro h
    obtain ⟨inner, hinner, rfl⟩ := h
    exact ⟨inner.toList, resolveReferences_eq_ok_iff.1 hinner, rfl⟩
  · intro h
    obtain ⟨inner, hinner, rfl⟩ := h
    exact ⟨String.ofList inner, resolveReferences_eq_ok_iff.2 (by simpa using hinner), by simp⟩

theorem map_markedRun (h : resolveReferences run = .ok text) :
    ∃ marked, markedRun run = .ok marked ∧ marked.map (·.1) = text.toList := by
  obtain ⟨inner, hinner, hout⟩ := (resolveReferences_eq_ok_iff.1 h).framed
  refine ⟨_, markedRun_eq_ok_iff.2 ⟨inner, hinner, rfl⟩, ?_⟩
  rw [hout]
  simp [Function.comp_def]

theorem blank_of_markedRun (h : markedRun run = .ok marked) (hx : x ∈ marked) (hleft : x.2 = false) :
    Text.isBlank x.1 = true := by
  obtain ⟨inner, _, rfl⟩ := markedRun_eq_ok_iff.1 h
  simp only [List.mem_append, List.mem_map] at hx
  rcases hx with ⟨c, hc, rfl⟩ | ⟨c, _, rfl⟩ | ⟨c, hc, rfl⟩
  · exact blank_of_mem_leading hc
  · cases hleft
  · exact blank_of_mem_trailing hc

theorem kept_markedRun (h : markedRun run = .ok marked) :
    Resolves (Text.trim Text.isBlank run) (Text.kept marked) := by
  obtain ⟨inner, hinner, rfl⟩ := markedRun_eq_ok_iff.1 h
  have hall (cs : List Char) : Text.kept (cs.map (·, true)) = cs := by
    rw [Text.kept_eq_iff.2 (by simp)]
    simp [Function.comp_def]
  have hnone (cs : List Char) : Text.kept (cs.map (·, false)) = [] := by
    simp [Text.kept, List.filter_map, Function.comp_def]
  rw [Text.kept_append, Text.kept_append, hall, hnone, hnone, List.append_nil]
  exact hinner

/-! ### The content of an element -/

/-- The content of an element that no other element is inside of. -/
inductive CharacterData where
  | last (run : List Char)
  | insert (run : List Char) (i : Insert) (rest : CharacterData)

namespace CharacterData

def written : CharacterData → List Char
  | last run => run
  | insert run i rest => run ++ (i.written ++ rest.written)

/-- It is cut where markup begins and ends. -/
def IsWellFormed : CharacterData → Prop
  | last run => ∀ c ∈ run, c ≠ '<'
  | insert run i rest => (∀ c ∈ run, c ≠ '<') ∧ i.IsClosed ∧ rest.IsWellFormed

/-- Whether `content` is well formed can be checked part by part. -/
def decidableIsWellFormed : (content : CharacterData) → Decidable content.IsWellFormed
  | last run => List.decidableBAll (· ≠ '<') run
  | insert run i rest =>
    have := List.decidableBAll (· ≠ '<') run
    have := rest.decidableIsWellFormed
    inferInstanceAs (Decidable ((∀ c ∈ run, c ≠ '<') ∧ i.IsClosed ∧ rest.IsWellFormed))

instance : DecidablePred IsWellFormed := decidableIsWellFormed

/-- What is written, in order: character data with its references resolved, and sections. -/
def text : CharacterData → Except ReferenceDefect String
  | last run => resolveReferences run
  | insert run i rest => do
    let text ← resolveReferences run
    return text ++ String.ofList i.text ++ (← rest.text)

/-- The characters of the text. Those of them that are read are marked. -/
def marked : CharacterData → Except ReferenceDefect (List (Char × Bool))
  | last run => markedRun run
  | insert run i rest => do
    let marked ← markedRun run
    return marked ++ (i.text.map (·, true) ++ (← rest.marked))

def events : CharacterData → List Event
  | last run => runEvents run
  | insert run i rest => runEvents run ++ (i.events ++ rest.events)

variable {content : CharacterData}

theorem reading_written (h : content.IsWellFormed) (state : ScanState) (rest : List Char) :
    reading state (content.written ++ '<' :: rest) = content.events ++ reading state ('<' :: rest) := by
  induction content with
  | last run => exact reading_run h rest
  | insert run i content ih =>
    obtain ⟨hrun, hi, hcontent⟩ := h
    have hopening : run ++ (i.written ++ content.written) ++ '<' :: rest =
        run ++ '<' :: (i.markup ++ ['>'] ++ (content.written ++ '<' :: rest)) := by
      simp [Insert.written]
    have hinsert := i.reading_written hi state (content.written ++ '<' :: rest)
    rw [Insert.written, List.cons_append] at hinsert
    rw [written, hopening, reading_run hrun, hinsert, ih hcontent, events, List.append_assoc,
      List.append_assoc]

theorem map_marked {text : String} (h : content.text = .ok text) :
    ∃ marked, content.marked = .ok marked ∧ marked.map (·.1) = text.toList := by
  induction content generalizing text with
  | last run => exact map_markedRun h
  | insert run i content ih =>
    obtain ⟨front, hfront, h⟩ := bind_eq_ok_iff.1 h
    obtain ⟨back, hback, h⟩ := bind_eq_ok_iff.1 h
    cases h
    obtain ⟨marked, hmarked, hmap⟩ := map_markedRun hfront
    obtain ⟨marked', hmarked', hmap'⟩ := ih hback
    refine ⟨marked ++ (i.text.map (·, true) ++ marked'), ?_, ?_⟩
    · exact bind_eq_ok_iff.2 ⟨marked, hmarked, bind_eq_ok_iff.2 ⟨marked', hmarked', rfl⟩⟩
    · simp [hmap, hmap', Function.comp_def]

theorem blank_of_marked {marked : List (Char × Bool)} (h : content.marked = .ok marked) :
    ∀ x ∈ marked, x.2 = false → Text.isBlank x.1 = true := by
  induction content generalizing marked with
  | last run => exact fun x hx => blank_of_markedRun h hx
  | insert run i content ih =>
    obtain ⟨front, hfront, h⟩ := bind_eq_ok_iff.1 h
    obtain ⟨back, hback, h⟩ := bind_eq_ok_iff.1 h
    cases h
    intro x hx hleft
    rcases List.mem_append.1 hx with hx | hx
    · exact blank_of_markedRun hfront hx hleft
    rcases List.mem_append.1 hx with hx | hx
    · obtain ⟨c, _, rfl⟩ := List.mem_map.1 hx
      cases hleft
    · exact ih hback x hx hleft

end CharacterData

end Xml

namespace Cursor

/-- Nothing but the text `cs` is between `c` and `d`, which are in one element. -/
structure Between (c : Cursor) (cs : List Char) (d : Cursor) : Prop where
  reads : ∀ text, c.textBehind text = d.textBehind (text ++ String.ofList cs)
  skips : c.opened ≠ [] → c.skipElement = d.skipElement
  opened : d.opened = c.opened

namespace Between

theorem refl (c : Cursor) : c.Between [] c := ⟨fun _ => by simp, fun _ => rfl, rfl⟩

theorem trans {c i d : Cursor} (h : c.Between cs i) (h' : i.Between cs' d) :
    c.Between (cs ++ cs') d where
  reads text := by
    rw [h.reads, h'.reads, String.ofList_append, String.append_assoc]
  skips ho := (h.skips ho).trans (h'.skips (h.opened ▸ ho))
  opened := h'.opened.trans h.opened

theorem of_text {c : Cursor} (hp : c.pending = .text offset raw :: events)
    (hr : Xml.Resolves raw cs) : c.Between cs (c.before events) where
  reads text := by
    have hread : c.readText offset raw = .ok (String.ofList cs) := by
      have hresolved : Xml.resolveReferences raw = .ok (String.ofList cs) :=
        Xml.resolveReferences_eq_ok_iff.2 (by simpa using hr)
      rw [readText, hresolved]
      rfl
    rw [textBehind, textBehind, textAmong_before, hp]
    simp only [textAmong, hread]
    rfl
  skips ho := by
    have hopen : 0 < c.depth := List.length_pos_iff.2 ho
    rw [skipElement, hp, skipAmong, if_neg (by omega)]
    rfl
  opened := rfl

theorem of_cdata {c : Cursor} (hp : c.pending = .cdata offset cs :: events) :
    c.Between cs (c.before events) where
  reads text := by
    rw [textBehind, textBehind, textAmong_before, hp]
    rfl
  skips ho := by
    have hopen : 0 < c.depth := List.length_pos_iff.2 ho
    rw [skipElement, hp, skipAmong, if_neg (by omega)]
    rfl
  opened := rfl

end Between

theorem marks_eq_cons {c : Cursor} (h : c.marks = mark :: more) : ∃ event events,
    c.pending = event :: events ∧ event.unplaced = mark ∧ (c.before events).marks = more := by
  obtain ⟨event, events, hp, hevent, hbehind⟩ := List.map_eq_cons_iff.1 h
  exact ⟨event, events, hp, hevent, hbehind⟩

theorem between_run {c : Cursor} (hm : c.marks = Xml.runEvents run ++ more)
    (h : Xml.Resolves (Text.trim Text.isBlank run) cs) :
    ∃ d : Cursor, c.Between cs d ∧ d.marks = more := by
  match hblank : run.dropWhile Text.isBlank with
  | [] =>
    rw [Xml.runEvents_of_blank hblank] at hm
    rw [Text.trim, hblank] at h
    cases h
    exact ⟨c, .refl c, hm⟩
  | x :: raw =>
    rw [Xml.runEvents_of_ne_blank hblank] at hm
    obtain ⟨event, events, hp, hevent, hbehind⟩ := marks_eq_cons hm
    cases event with
    | text offset raw =>
      cases hevent
      exact ⟨_, .of_text hp h, hbehind⟩
    | start | finish | cdata | fault => cases hevent

theorem between_insert {c : Cursor} {i : Xml.Insert} (hm : c.marks = i.events ++ more) :
    ∃ d : Cursor, c.Between i.text d ∧ d.marks = more := by
  cases i with
  | cdata content =>
    obtain ⟨event, events, hp, hevent, hbehind⟩ := marks_eq_cons hm
    cases event with
    | cdata offset content =>
      cases hevent
      exact ⟨_, .of_cdata hp, hbehind⟩
    | start | finish | text | fault => cases hevent
  | comment | instruction => exact ⟨c, .refl c, hm⟩

/-- What is read of the content of an element is what is marked. -/
theorem between_content {c : Cursor} {content : Xml.CharacterData}
    (hm : c.marks = content.events ++ more) (h : content.marked = .ok marked) :
    ∃ d : Cursor, c.Between (Text.kept marked) d ∧ d.marks = more := by
  induction content generalizing c marked with
  | last run => exact between_run hm (Xml.kept_markedRun h)
  | insert run i content ih =>
    obtain ⟨front, hfront, h⟩ := bind_eq_ok_iff.1 h
    obtain ⟨back, hback, h⟩ := bind_eq_ok_iff.1 h
    cases h
    rw [Xml.CharacterData.events, List.append_assoc, List.append_assoc] at hm
    obtain ⟨d, hd, hm⟩ := between_run hm (Xml.kept_markedRun hfront)
    obtain ⟨e, he, hm⟩ := between_insert hm
    obtain ⟨o, ho, hm⟩ := ih hm hback
    have hinsert : Text.kept (i.text.map (·, true)) = i.text := by
      rw [Text.kept_eq_iff.2 (by simp)]
      simp [Function.comp_def]
    refine ⟨o, ?_, hm⟩
    rw [Text.kept_append, Text.kept_append, hinsert]
    exact hd.trans (he.trans ho)

/-- The element that `c` is on contains `content`: its end tag is behind, or it is written as one tag. -/
inductive Contains (c : Cursor) : Xml.CharacterData → Prop where
  | written {content : Xml.CharacterData}
      (h : c.marks = Xml.reading state (content.written ++ '<' :: '/' :: back)) : Contains c content
  | single (h : c.marks = .finish 0 name :: more) : Contains c (.last [])

/-- Where skipping an element leads from the end of its text, reading that text leads, too. -/
theorem textBehind_of_skipElement {c d : Cursor} (ho : c.opened ≠ []) (hm : c.marks = mark :: more)
    (hmark : (∃ name, mark = .finish 0 name) ∨ ∃ defect, mark = .fault 0 defect)
    (hskip : c.skipElement = (.ok (), d)) (text : String) : c.textBehind text = (.ok text, d) := by
  have hopen : 0 < c.depth := List.length_pos_iff.2 ho
  obtain ⟨event, events, hp, hevent, _⟩ := marks_eq_cons hm
  cases event with
  | finish offset name =>
    rw [skipElement] at hskip
    cases hclose : (c.before events).closeElement offset name with
    | ok e =>
      have hdepth : e.depth = c.depth - 1 := by
        rw [depth, (closeElement_moves hclose).1, List.length_tail]
        rfl
      rw [skipAmong_finish hp hclose (by omega), skipAmong_of_le (by omega)] at hskip
      cases hskip
      rw [textBehind_eq_settle hp, hclose]
      rfl
    | error e =>
      rw [hp, skipAmong, if_neg (by omega)] at hskip
      simp only [before] at hclose
      simp only [hclose] at hskip
      cases hskip
  | fault offset defect =>
    rw [skipElement, hp, skipAmong, if_neg (by omega)] at hskip
    cases hskip
  | start | text | cdata =>
    rcases hmark with ⟨_, rfl⟩ | ⟨_, rfl⟩ <;> cases hevent

/-- The text of an element without other elements inside is what is marked of its content. -/
theorem Contains.elementText {c d : Cursor} {content : Xml.CharacterData} (h : c.Contains content)
    (ho : c.opened ≠ []) (hw : content.IsWellFormed) (hskip : c.skipElement = (.ok (), d))
    (hmarked : content.marked = .ok marked) :
    c.elementText = (.ok (String.ofList (Text.kept marked)), d) := by
  obtain ⟨mark, more, hm, hmark⟩ : ∃ mark more, c.marks = content.events ++ mark :: more ∧
      ((∃ name, mark = .finish 0 name) ∨ ∃ defect, mark = .fault 0 defect) := by
    cases h with
    | @written state back _ h =>
      obtain ⟨mark, more, hend, hmark⟩ := Xml.reading_endTag state back
      rw [Xml.CharacterData.reading_written hw, hend] at h
      exact ⟨mark, more, h, hmark⟩
    | single h => exact ⟨_, _, h, .inl ⟨_, rfl⟩⟩
  obtain ⟨e, he, hbehind⟩ := between_content hm hmarked
  have hread := textBehind_of_skipElement (he.opened ▸ ho) hbehind hmark ((he.skips ho) ▸ hskip)
  have hall := (he.reads "").trans (hread _)
  rwa [String.empty_append] at hall

end Cursor

end ManagementScript
