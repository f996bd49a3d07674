import Mathlib.Logic.Relation
import ManagementScript.Proofs.Tree.Nesting

/-!
A cursor moves event by event. A move that succeeds is made of such steps, so what each step keeps is
kept by all moves; a move that fails has not gone back either.
-/

namespace ManagementScript.Cursor

/-- The cursor reads one event: it passes over text, or it moves onto a tag. -/
inductive Reads : Cursor → Cursor → Prop where
  | text {c : Cursor} (hp : c.pending = .text offset raw :: events) : Reads c (c.before events)
  | cdata {c : Cursor} (hp : c.pending = .cdata offset content :: events) : Reads c (c.before events)
  | start {c i : Cursor} (hp : c.pending = .start offset name tag scope :: events)
      (hi : (c.before events).openElement offset name tag scope = .ok i) : Reads c i
  | finish {c d : Cursor} (hp : c.pending = .finish offset name :: events)
      (hd : (c.before events).closeElement offset name = .ok d) : Reads c d

abbrev ReadsOn : Cursor → Cursor → Prop := Relation.ReflTransGen Reads

theorem Lands.readsOn {c d : Cursor} (h : c.Lands events (.ok tag, d)) :
    (c.before events).ReadsOn d := by
  generalize hm : (Except.ok tag, d) = moved at h
  induction h with
  | ended =>
    cases hm
    exact .refl
  | cut | stuck => cases hm
  | start hi =>
    cases hm
    exact .single (.start rfl hi)
  | finish hd =>
    cases hm
    exact .single (.finish rfl hd)
  | text _ ih => exact (ih hm).head (.text rfl)
  | cdata _ ih => exact (ih hm).head (.cdata rfl)

theorem Encloses.readsOn {c d : Cursor} (h : c.Encloses nodes d) : c.ReadsOn d := by
  induction h with
  | finish hp hd => exact .single (.finish hp hd)
  | text hp _ _ ih => exact ih.head (.text hp)
  | cdata hp _ ih => exact ih.head (.cdata hp)
  | element hp hi _ _ ihin ih => exact (ihin.trans ih).head (.start hp hi)

theorem before_eq_self {c : Cursor} (h : c.pending = events) : c.before events = c := by
  rw [← h]
  rfl

theorem readsOn_of_skipAmong {c d : Cursor} (h : skipAmong target c events = (.ok (), d)) :
    (c.before events).ReadsOn d := by
  induction events generalizing c with
  | nil =>
    simp only [skipAmong] at h
    split at h
    · cases h
      exact .refl
    · cases h
  | cons event events ih =>
    by_cases hle : c.depth ≤ target
    · rw [skipAmong_stop hle] at h
      cases h
      exact .refl
    have ht : target < c.depth := Nat.lt_of_not_le hle
    cases event with
    | start offset name tag scope =>
      obtain ⟨i, hi, h⟩ := (skipAmong_start_eq_ok ht).1 h
      have hpending : i.pending = events := (openElement_reads hi).1
      have hin := ih h
      rw [before_eq_self hpending] at hin
      exact hin.head (.start rfl hi)
    | finish offset name =>
      obtain ⟨o, ho, h⟩ := (skipAmong_finish_eq_ok ht).1 h
      have hpending : o.pending = events := (closeElement_pending ho).1
      have hout := ih h
      rw [before_eq_self hpending] at hout
      exact hout.head (.finish rfl ho)
    | text => exact (ih (c := c.before events) ((skipAmong_cons ht).symm.trans h)).head (.text rfl)
    | cdata => exact (ih (c := c.before events) ((skipAmong_cons ht).symm.trans h)).head (.cdata rfl)
    | fault => cases (skipAmong_cons ht).symm.trans h

/-- What holds before the first tag and is kept by each step holds wherever the cursor is moved to. -/
theorem Reached.invariant {P : Cursor → Prop} {c : Cursor} (h : Reached source c)
    (hstart : P (.ofString source)) (hstep : ∀ c d, P c → c.Reads d → P d) : P c := by
  -- Each move is a run of steps, whatever it reads.
  have hsteps {c d : Cursor} (hc : P c) (h : c.ReadsOn d) : P d := by
    induction h with
    | refl => exact hc
    | tail _ hread ih => exact hstep _ _ ih hread
  induction h with
  | start => exact hstart
  | next _ hd ih => exact hsteps ih (Lands.readsOn (hd ▸ next_lands _))
  | elementText _ hd ih =>
    obtain ⟨nodes, hn, _⟩ := elementText_eq_ok_iff.1 hd
    exact hsteps ih hn.readsOn
  | skipElement _ hd ih => exact hsteps ih (readsOn_of_skipAmong hd)

/-! ### Moves that may fail -/

/-- From the one cursor to the other nothing is read twice. -/
structure Passes (c d : Cursor) : Prop where
  lines : d.lines = c.lines
  pending : d.pending <:+ c.pending

theorem Passes.refl (c : Cursor) : c.Passes c := ⟨rfl, List.suffix_rfl⟩

theorem Passes.trans {c i d : Cursor} (h : c.Passes i) (h' : i.Passes d) : c.Passes d :=
  ⟨h'.lines.trans h.lines, h'.pending.trans h.pending⟩

theorem Passes.cons {c d : Cursor} (h : (c.before events).Passes d) (event : Xml.Event) :
    (c.before (event :: events)).Passes d :=
  ⟨h.lines, h.pending.trans (List.suffix_cons ..)⟩

theorem passes_settle {c : Cursor} {moved : Except ReadError Cursor}
    (h : ∀ d, moved = .ok d → c.Passes d) (result : α) : c.Passes (c.settle result moved).2 := by
  cases moved with
  | ok d => exact h d rfl
  | error e => exact .refl c

theorem passes_openElement {c i : Cursor} (h : c.openElement offset name tag scope = .ok i) :
    c.Passes i :=
  ⟨(openElement_moves h).2.2, (openElement_reads h).1 ▸ List.suffix_rfl⟩

theorem passes_closeElement {c d : Cursor} (h : c.closeElement offset name = .ok d) : c.Passes d :=
  ⟨(closeElement_moves h).2.2.1, (closeElement_pending h).1 ▸ List.suffix_rfl⟩

theorem passes_nextAmong (c : Cursor) (events : List Xml.Event) :
    (c.before events).Passes (c.nextAmong events).2 := by
  induction events with
  | nil =>
    simp only [nextAmong]
    split
    · exact .refl _
    · exact .refl _
  | cons event events ih =>
    have hbefore := Passes.refl (c.before events)
    cases event with
    | start => exact (passes_settle (fun _ => passes_openElement) Tag.start).cons _
    | finish => exact (passes_settle (fun _ => passes_closeElement) Tag.finish).cons _
    | text offset raw =>
      simp only [nextAmong]
      split
      · exact hbefore.cons _
      · split
        · exact hbefore.cons _
        · exact ih.cons _
    | cdata offset content =>
      simp only [nextAmong]
      split
      · exact hbefore.cons _
      · exact ih.cons _
    | fault => exact hbefore.cons _

theorem passes_textAmong (c : Cursor) (text : String) (events : List Xml.Event) :
    (c.before events).Passes (c.textAmong text events).2 := by
  induction events generalizing text with
  | nil => exact .refl _
  | cons event events ih =>
    have hbefore := Passes.refl (c.before events)
    cases event with
    | start | fault => exact hbefore.cons _
    | finish => exact (passes_settle (fun _ => passes_closeElement) text).cons _
    | text offset raw =>
      simp only [textAmong]
      split
      · exact hbefore.cons _
      · exact (ih _).cons _
    | cdata => exact (ih _).cons _

theorem passes_skipAmong (target : Nat) (c : Cursor) (events : List Xml.Event) :
    (c.before events).Passes (skipAmong target c events).2 := by
  induction events generalizing c with
  | nil =>
    simp only [skipAmong]
    split
    · exact .refl _
    · exact .refl _
  | cons event events ih =>
    have hbefore := Passes.refl (c.before events)
    by_cases hle : c.depth ≤ target
    · rw [skipAmong_stop hle]
      exact .refl _
    have ht : target < c.depth := Nat.lt_of_not_le hle
    rw [skipAmong_cons ht]
    cases event with
    | start offset name tag scope =>
      simp only
      split
      · exact hbefore.cons _
      · next i hi =>
        have hpending : i.pending = events := (openElement_reads hi).1
        have hin := ih i
        rw [before_eq_self hpending] at hin
        exact ((passes_openElement hi).trans hin).cons _
    | finish offset name =>
      simp only
      split
      · exact hbefore.cons _
      · next o ho =>
        have hpending : o.pending = events := (closeElement_pending ho).1
        have hout := ih o
        rw [before_eq_self hpending] at hout
        exact ((passes_closeElement ho).trans hout).cons _
    | text | cdata => exact (ih (c.before events)).cons _
    | fault => exact hbefore.cons _

/-- The cursor is where it was moved to from before the first tag, whether moves have failed or not. -/
inductive Visited (source : String) : Cursor → Prop where
  | start : Visited source (.ofString source)
  | next {c : Cursor} (h : Visited source c) : Visited source c.next.2
  | elementText {c : Cursor} (h : Visited source c) : Visited source c.elementText.2
  | skipElement {c : Cursor} (h : Visited source c) : Visited source c.skipElement.2

theorem Visited.passes {c : Cursor} (h : Visited source c) : (ofString source).Passes c := by
  induction h with
  | start => exact .refl _
  | next _ ih => exact ih.trans (passes_nextAmong _ _)
  | elementText _ ih => exact ih.trans (passes_textAmong _ _ _)
  | skipElement _ ih => exact ih.trans (passes_skipAmong _ _ _)

end ManagementScript.Cursor
