import ManagementScript.Proofs.Tree.Reading
import ManagementScript.Proofs.Tree.Scanning

/-!
Start tags and end tags of a document pair up: the scanner gives an end tag only for the innermost
start tag that waits for one. So the end tag that closes an element has the name of its start tag, and
everything between them is closed.
-/

namespace ManagementScript

namespace Xml

/-- Every start tag is followed by the end tag of the same name that closes it, and the other way
round. Nothing is broken. -/
inductive Balanced : List Event → Prop where
  | nil : Balanced []
  | text (h : Balanced ahead) : Balanced (.text offset raw :: ahead)
  | cdata (h : Balanced ahead) : Balanced (.cdata offset content :: ahead)
  | element (hin : Balanced inside) (h : Balanced ahead) :
      Balanced (.start offset name tag scope :: (inside ++ .finish offset' name :: ahead))

/-- What can be read behind a place of a document, where `state` is what the scanner remembers. -/
inductive Follows : ScanState → List Event → Prop where
  | nil : Follows state []
  | text (h : Follows state ahead) : Follows state (.text offset raw :: ahead)
  | cdata (h : Follows state ahead) : Follows state (.cdata offset content :: ahead)
  | fault (h : Follows state' ahead) : Follows state (.fault offset defect :: ahead)
  | start (h : Follows { state with opened := tag.name :: state.opened, scopes := scope :: state.scopes }
      ahead) : Follows state (.start offset (scope.resolveElement tag.name) tag scope :: ahead)
  | finish (ho : state.opened = written :: outer) (h : Follows state.close ahead) :
      Follows state (.finish offset (state.scope.resolveElement written) :: ahead)

theorem follows_finish {state : ScanState} (ho : state.opened = written :: outer)
    (h : Follows (state.finish offset written).1 ahead) :
    Follows state ((state.finish offset written).2 :: ahead) :=
  .finish ho h

theorem follows_endTag {state : ScanState}
    (h : Follows (state.endTag first offset written).1 ahead) :
    Follows state ((state.endTag first offset written).2 :: ahead) := by
  simp only [ScanState.endTag] at h ⊢
  split at h
  · exact .fault h
  next ho =>
  split at h
  · next he =>
    rw [eq_of_beq he] at ho
    rw [if_pos he]
    exact follows_finish ho h
  · next he =>
    rw [if_neg he]
    exact .fault h

theorem follows_start {state : ScanState} (h : Follows (state.start offset tag).1 ahead) :
    Follows state ((state.start offset tag).2 :: ahead) := by
  simp only [ScanState.start] at h ⊢
  split at h
  · exact .fault h
  · exact .start h

theorem opened_start (state : ScanState) (offset : Nat) (tag : TagText) :
    (state.start offset tag).1.opened = tag.name :: state.opened := by
  simp only [ScanState.start]
  split
  · rfl
  · rfl

theorem follows_read {state : ScanState} {locate : Nat → Nat}
    (h : Follows (state.read locate offset first next p).1 ahead) :
    Follows state ((state.read locate offset first next p).2 ++ ahead) := by
  cases p with
  | aside => exact h
  | namelessDoctype => exact .fault h
  | cdata content => exact .cdata h
  | endTag name => exact follows_endTag h
  | startTag tag empty =>
    cases empty with
    | true => exact follows_start (follows_finish (opened_start state _ tag) h)
    | false => exact follows_start h

theorem scanFrom_follows (locate : Nat → Nat) (steps : Nat) (state : ScanState) (offset : Nat)
    (cs : List Char) : Follows state (scanFrom locate steps state [] offset cs) := by
  induction steps generalizing state offset cs with
  | zero => exact .nil
  | succ steps ih =>
    have hstep := scanFrom_step locate steps state offset cs
    generalize scanFrom locate (steps + 1) state [] offset cs = es at hstep ⊢
    cases hstep with
    | blank => exact .nil
    | defect =>
      have hnil : Follows state [] := .nil
      exact .fault hnil
    | markup => exact follows_read (ih ..)
    | text => exact .text (ih ..)

theorem events_follows (source : String) : Follows .initial (events source) := scanFrom_follows ..

theorem Follows.of_append {past ahead : List Event} (h : Follows state (past ++ ahead)) :
    ∃ state', Follows state' ahead := by
  induction past generalizing state with
  | nil => exact ⟨state, h⟩
  | cons event past ih =>
    cases h with
    | text h | cdata h | fault h | start h | finish _ h => exact ih h

end Xml

namespace Cursor

theorem closeElement_moves {c d : Cursor} (h : c.closeElement offset name = .ok d) :
    d.opened = c.opened.tail ∧ d.localName = name.localName ∧ d.lines = c.lines ∧
      d.position = c.lines.positionAt offset := by
  simp only [closeElement, bind, Except.bind] at h
  split at h
  · cases h
  · cases h
    exact ⟨rfl, rfl, rfl, rfl⟩

theorem openElement_moves {c i : Cursor} (h : c.openElement offset name tag scope = .ok i) :
    i.opened = name.localName :: c.opened ∧ i.localName = name.localName ∧ i.lines = c.lines := by
  simp only [openElement, bind, Except.bind] at h
  split at h
  · cases h
  split at h
  · cases h
  split at h
  · cases h
  split at h
  · cases h
  · cases h
    exact ⟨rfl, rfl, rfl⟩

theorem Encloses.moves {c d : Cursor} (h : c.Encloses nodes d) :
    d.opened = c.opened.tail ∧ d.lines = c.lines := by
  induction h with
  | finish _ hd => exact ⟨(closeElement_moves hd).1, (closeElement_moves hd).2.2.1⟩
  | text _ _ _ ih => exact ih
  | cdata _ _ ih => exact ih
  | element _ hi _ _ ihin ih =>
    obtain ⟨ho, _, hl⟩ := openElement_moves hi
    rw [ho] at ihin
    rw [ihin.1, ihin.2, hl] at ih
    exact ih

/-- The end tag that is read behind the content of an element is the one that closes it. -/
theorem Encloses.balanced {c d : Cursor} {state : Xml.ScanState} (h : c.Encloses nodes d)
    (hf : Xml.Follows state c.pending) (ho : state.opened = written :: outer) :
    ∃ inside offset,
      c.pending = inside ++ .finish offset (state.scope.resolveElement written) :: d.pending ∧
        Xml.Balanced inside ∧ Xml.Follows state.close d.pending ∧
        d.localName = (state.scope.resolveElement written).localName ∧
        d.position = d.lines.positionAt offset := by
  induction h generalizing state written outer with
  | finish hp hd =>
    rw [hp] at hf
    cases hf with
    | finish ho' hf =>
      rw [ho] at ho'
      cases ho'
      obtain ⟨_, hn, hl, hpos⟩ := closeElement_moves hd
      rw [hp, (closeElement_pending hd).1]
      exact ⟨[], _, rfl, .nil, hf, hn, hl ▸ hpos⟩
  | text hp _ _ ih =>
    rw [hp] at hf
    cases hf with
    | text hf =>
      obtain ⟨inside, offset, he, hb, hrest⟩ := ih hf ho
      rw [hp]
      exact ⟨_ :: inside, offset, congrArg _ he, hb.text, hrest⟩
  | cdata hp _ ih =>
    rw [hp] at hf
    cases hf with
    | cdata hf =>
      obtain ⟨inside, offset, he, hb, hrest⟩ := ih hf ho
      rw [hp]
      exact ⟨_ :: inside, offset, congrArg _ he, hb.cdata, hrest⟩
  | @element ahead i _ _ _ _ _ _ _ _ _ hp hi _ _ ihin ih =>
    rw [hp] at hf
    cases hf with
    | start hf =>
      have hi : i.pending = ahead := (openElement_reads hi).1
      obtain ⟨child, _, hechild, hbchild, hfchild, _⟩ := ihin (hi ▸ hf) rfl
      obtain ⟨inside, offset, he, hb, hrest⟩ := ih hfchild ho
      have hassoc (x y : Xml.Event) (zs : List Xml.Event) :
          x :: (child ++ y :: (inside ++ zs)) = (x :: (child ++ y :: inside)) ++ zs := by simp
      rw [hp, ← hi, hechild, he, hassoc]
      exact ⟨_, offset, rfl, hbchild.element hb, hrest⟩

end Cursor

end ManagementScript
