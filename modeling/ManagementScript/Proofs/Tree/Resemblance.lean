import ManagementScript.Proofs.Tree.Echo
import ManagementScript.Proofs.Tree.TagOrder

/-!
Texts that say the same up to the ends of their roots. What the scanner finds in one of them it finds in
the other one, though at other places.
-/

namespace ManagementScript.Xml

/-- The pieces of markup say the same, as far as the first one can be read. -/
inductive Piece.Alike : Piece → Piece → Prop where
  | refl (p : Piece) : Alike p p
  | startTag (h : tag.Alike tag') : Alike (.startTag tag empty) (.startTag tag' empty)

/-- The texts say the same up to the end of the root, as far as the first one can be read; `depth`
elements are open before them. -/
inductive Resembles : Nat → List Char → List Char → Prop where
  | nil : Resembles depth [] []
  | text (hc : c ≠ '<') (h : Resembles depth cs cs') : Resembles depth (c :: cs) (c :: cs')
  | broken (h : ∀ content rest p, enclosed cs = .ok (content, rest) → piece content ≠ .ok p) :
      Resembles depth ('<' :: cs) ('<' :: cs')
  | markup (h : enclosed cs = .ok (content, rest)) (h' : enclosed cs' = .ok (content', rest'))
      (hp : piece content = .ok p) (hp' : piece content' = .ok p') (halike : p.Alike p')
      (hrest : ∀ d, p.depthBehind depth = some d → Resembles d rest rest') :
      Resembles depth ('<' :: cs) ('<' :: cs')

namespace Resembles

theorem of_enclosed {cs cs' : List Char} (h : enclosed cs = .ok (content, rest))
    (h' : enclosed cs' = .ok (content, rest')) (hrest : ∀ d, Resembles d rest rest') :
    Resembles depth ('<' :: cs) ('<' :: cs') := by
  cases hp : piece content with
  | error defect =>
    refine broken fun content₁ rest₁ p h₁ hp₁ => ?_
    rw [h] at h₁
    cases h₁
    rw [hp] at hp₁
    cases hp₁
  | ok p => exact markup h h' hp hp (.refl p) fun d _ => hrest d

theorem refl (depth : Nat) (cs : List Char) : Resembles depth cs cs := by
  induction hn : cs.length using Nat.strong_induction_on generalizing depth cs with
  | _ n ih =>
    cases cs with
    | nil => exact nil
    | cons c cs =>
      rw [List.length_cons] at hn
      by_cases hc : c = '<'
      · subst hc
        cases he : enclosed cs with
        | error defect =>
          refine broken fun content rest p h => ?_
          rw [he] at h
          cases h
        | ok markup =>
          obtain ⟨content, rest⟩ := markup
          obtain ⟨used, rfl, _⟩ := enclosed_split he
          rw [List.length_append] at hn
          exact of_enclosed he he fun d => ih rest.length (by omega) d rest rfl
      · exact text hc (ih cs.length (by omega) depth cs rfl)

theorem span {cs cs' : List Char} (h : Resembles depth cs cs') :
    cs.takeWhile (· != '<') = cs'.takeWhile (· != '<') ∧
      Resembles depth (cs.dropWhile (· != '<')) (cs'.dropWhile (· != '<')) := by
  induction h with
  | nil => exact ⟨rfl, nil⟩
  | @text c _ _ _ hc _ ih =>
    have hp : (c != '<') = true := bne_iff_ne.2 hc
    simp only [List.takeWhile_cons, List.dropWhile_cons, hp, ↓reduceIte, ih.1, true_and]
    exact ih.2
  | broken h => exact ⟨rfl, broken h⟩
  | markup h h' hp hp' halike hrest => exact ⟨rfl, markup h h' hp hp' halike hrest⟩

theorem append {raw : List Char} (hraw : ∀ c ∈ raw, c ≠ '<') (h : Resembles depth cs cs') :
    Resembles depth (raw ++ cs) (raw ++ cs') := by
  induction raw with
  | nil => exact h
  | cons c raw ih =>
    obtain ⟨hc, hraw⟩ := List.forall_mem_cons.1 hraw
    exact text hc (ih hraw)

end Resembles

/-! ### Steps over texts that say the same -/

namespace ScanState

/-- What is remembered of the one text gives every prefix the same namespace as what is remembered of
the other. -/
structure Agrees (state state' : ScanState) : Prop where
  opened : state'.opened = state.opened
  scopes : List.Forall₂ Scope.Agrees state.scopes state'.scopes

theorem Agrees.scope {state state' : ScanState} (h : state.Agrees state') :
    state.scope.Agrees state'.scope := by
  obtain ⟨opened, scopes, _⟩ := state
  obtain ⟨opened', scopes', _⟩ := state'
  cases h.scopes with
  | nil => exact fun _ => rfl
  | cons hscope _ => exact hscope

theorem Agrees.close {state state' : ScanState} (h : state.Agrees state') :
    state.close.Agrees state'.close := by
  obtain ⟨opened, scopes, _⟩ := state
  obtain ⟨opened', scopes', _⟩ := state'
  refine ⟨congrArg List.tail h.opened, ?_⟩
  cases h.scopes with
  | nil => exact .nil
  | cons _ hscopes => exact hscopes

theorem Agrees.echo_finish {state state' : ScanState} (hs : state.Agrees state')
    (hrest : 1 < depth → state.close.Agrees state'.close → Echo (depth - 1) ahead ahead') :
    Echo depth ((state.finish offset name).2 :: ahead) ((state'.finish offset' name).2 :: ahead') := by
  rw [finish, finish, hs.scope.resolveElement]
  exact .finish fun hd => hrest hd hs.close

theorem Agrees.echo_endTag {state state' : ScanState} (hs : state.Agrees state')
    (hrest : 1 < depth → (state.endTag first offset name).1.Agrees
      (state'.endTag first' offset' name).1 → Echo (depth - 1) ahead ahead') :
    Echo depth ((state.endTag first offset name).2 :: ahead)
      ((state'.endTag first' offset' name).2 :: ahead') := by
  simp only [endTag, hs.opened] at hrest ⊢
  split
  · exact .fault
  next ho =>
  split
  · next he =>
    simp only [ho, he, ↓reduceIte] at hrest
    exact hs.echo_finish hrest
  · exact .fault

theorem Agrees.echo_start {state state' : ScanState} (hs : state.Agrees state')
    (ht : tag.Alike tag')
    (hrest : (state.start offset tag).1.Agrees (state'.start offset' tag').1 →
      Echo (depth + 1) ahead ahead') :
    Echo depth ((state.start offset tag).2 :: ahead) ((state'.start offset' tag').2 :: ahead') := by
  cases hd : (state.scope.declareAll (tag.attributes false).1).2 with
  | some defect =>
    simp only [start, hd]
    exact .fault
  | none =>
    rw [start_of_declared hd] at hrest ⊢
    by_cases hread : ∃ attrs, Cursor.readAttributes .unread tag
        (state.scope.declareAll (tag.attributes false).1).1 = .ok attrs
    · obtain ⟨attrs, hattrs⟩ := hread
      obtain ⟨hd', hscope⟩ := Scope.declareAll_alike ht hs.scope
        (Cursor.readAttributes_eq_ok.1 hattrs).1 hd
      obtain ⟨ha, attrs', ha', hperm⟩ := Cursor.readAttributes_alike ht hscope hattrs
      rw [start_of_declared hd'] at hrest ⊢
      simp only [hscope.resolveElement, ht.name] at hrest ⊢
      exact .start ha ha' hperm (hrest ⟨congrArg (tag.name :: ·) hs.opened, .cons hscope hs.scopes⟩)
    · refine .unread fun p attrs hattrs => hread ⟨attrs, ?_⟩
      exact (Cursor.readAttributes_alike (.refl tag) (fun _ => rfl) hattrs).1 _

/-- What is found in a piece of markup is found in one that says the same. -/
theorem Agrees.echo_read {state state' : ScanState} (hs : state.Agrees state') (hp : p.Alike p')
    (hrest : ∀ d, p.depthBehind depth = some d →
      (state.read locate offset first next p).1.Agrees
        (state'.read locate' offset' first' next' p').1 → Echo d ahead ahead') :
    Echo depth ((state.read locate offset first next p).2 ++ ahead)
      ((state'.read locate' offset' first' next' p').2 ++ ahead') := by
  have hstart {tag tag' : TagText} {empty : Bool} (ht : tag.Alike tag')
      (hrest : ∀ d, (Piece.startTag tag empty).depthBehind depth = some d →
        (state.read locate offset first next (.startTag tag empty)).1.Agrees
          (state'.read locate' offset' first' next' (.startTag tag' empty)).1 → Echo d ahead ahead') :
      Echo depth ((state.read locate offset first next (.startTag tag empty)).2 ++ ahead)
        ((state'.read locate' offset' first' next' (.startTag tag' empty)).2 ++ ahead') := by
    cases empty with
    | false => exact hs.echo_start ht (hrest _ rfl)
    | true =>
      simp only [read, ht.name] at hrest ⊢
      refine hs.echo_start ht fun hopened => hopened.echo_finish fun hd => hrest depth ?_
      exact if_neg (by omega)
  cases hp with
  | startTag ht => exact hstart ht hrest
  | refl =>
    cases p with
    | aside => exact hrest _ rfl hs
    | namelessDoctype => exact .fault
    | cdata content => exact .cdata (hrest _ rfl hs)
    | endTag name =>
      refine hs.echo_endTag fun hd => hrest _ ?_
      exact if_neg (Nat.not_le.2 hd)
    | startTag tag empty => exact hstart (.refl tag) hrest

theorem agrees_initial : initial.Agrees initial := ⟨rfl, .cons (fun _ => rfl) .nil⟩

end ScanState

/-- What the scanner finds in texts that say the same says the same. -/
theorem Resembles.echo {cs cs' : List Char} {state state' : ScanState} (h : Resembles depth cs cs')
    (hs : state.Agrees state') (hlen : cs'.length ≤ steps') :
    Echo depth (scanFrom locate steps state [] offset cs)
      (scanFrom locate' steps' state' [] offset' cs') := by
  -- A step of the scanner takes a run of text or a piece of markup, of both texts.
  induction steps generalizing steps' state state' offset offset' depth cs cs' with
  | zero => exact .ended
  | succ steps ih =>
    obtain ⟨hspan, hrest⟩ := h.span
    have hdrop := dropWhile_isBlank_eq cs
    have hdrop' := dropWhile_isBlank_eq cs'
    rw [← hspan] at hdrop'
    have hlength : (cs.takeWhile (· != '<')).length + (cs'.dropWhile (· != '<')).length ≤ steps' := by
      rw [hspan, ← List.length_append, List.takeWhile_append_dropWhile]
      exact hlen
    cases hraw : (cs.takeWhile (· != '<')).dropWhile Text.isBlank with
    | cons c raw =>
      rw [hraw, List.cons_append] at hdrop hdrop'
      have hrun (x : Char) (hx : x ∈ c :: raw) : x ≠ '<' := by
        have hmem := (hraw ▸ List.dropWhile_sublist Text.isBlank).subset hx
        exact bne_iff_ne.1 (@List.mem_takeWhile_imp _ (· != '<') _ _ hmem)
      have hpos : 0 < (cs.takeWhile (· != '<')).length := by
        refine List.length_pos_iff.2 fun hnil => ?_
        rw [hnil] at hraw
        cases hraw
      obtain ⟨steps', rfl⟩ := Nat.exists_eq_add_one.2 (show 0 < steps' by omega)
      obtain ⟨hc, hraw'⟩ := List.forall_mem_cons.1 hrun
      obtain ⟨next, hscan⟩ := scanFrom_text locate steps state offset hdrop hc
      obtain ⟨next', hscan'⟩ := scanFrom_text locate' steps' state' offset' hdrop' hc
      rw [hscan, hscan', ← List.cons_append, ← List.cons_append, (span_run hrun cs).1,
        (span_run hrun cs').1, (span_run hraw' cs).2, (span_run hraw' cs').2]
      exact .text (ih hrest hs (by omega))
    | nil =>
      rw [hraw, List.nil_append] at hdrop hdrop'
      generalize hahead : cs.dropWhile (· != '<') = ahead, hahead' : cs'.dropWhile (· != '<') = ahead'
        at hrest
      rw [hahead] at hdrop
      rw [hahead'] at hdrop' hlength
      cases hrest with
      | nil =>
        rw [scanFrom_blank locate steps state offset hdrop]
        exact .ended
      | text hc => exact absurd (head_dropWhile_opening hahead) hc
      | broken hbroken =>
        obtain ⟨defect, hm⟩ := exists_defect hbroken
        obtain ⟨first, hscan⟩ := scanFrom_defect locate steps state offset hdrop hm
        rw [hscan]
        exact .fault
      | markup he he' hp hp' halike hbehind =>
        obtain ⟨steps', rfl⟩ := Nat.exists_eq_add_one.2
          (Nat.lt_of_lt_of_le (Nat.add_pos_right _ (Nat.succ_pos _)) hlength)
        obtain ⟨first, next, hscan⟩ :=
          scanFrom_markup locate steps state offset hdrop (markupOf_eq_ok_iff.2 ⟨_, he, hp⟩)
        obtain ⟨first', next', hscan'⟩ :=
          scanFrom_markup locate' steps' state' offset' hdrop' (markupOf_eq_ok_iff.2 ⟨_, he', hp'⟩)
        obtain ⟨used, rfl, _⟩ := enclosed_split he'
        rw [hscan, hscan']
        refine hs.echo_read halike fun d hd hagrees => ih (hbehind d hd) hagrees ?_
        simp only [List.length_cons, List.length_append] at hlength
        omega

theorem events_echo {source source' : String}
    (h : Resembles 0 (withoutMark source.toList) (withoutMark source'.toList)) :
    Echo 0 (events source) (events source') :=
  h.echo ScanState.agrees_initial (Nat.le_refl _)

end ManagementScript.Xml
