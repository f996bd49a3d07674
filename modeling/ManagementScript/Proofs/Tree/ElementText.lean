import ManagementScript.Proofs.Tree.Places

/-!
The text of an element. It is found by counting tags, and it is read in one way wherever it is and
whatever is behind it.
-/

namespace ManagementScript.Xml

/-- The name of an element that begins inside a scope. -/
def Scope.nameOf (scope : Scope) (tag : TagText) : ResolvedName :=
  (scope.declareAll (tag.attributes false).1).1.resolveElement tag.name

/-! ### The end of an element -/

theorem endsRoot_unplaced {es : List Event} :
    EndsRoot depth (es.map Event.unplaced) ↔ EndsRoot depth es := by
  apply Iff.intro
  · intro h
    generalize hm : es.map Event.unplaced = marks at h
    induction h generalizing es with
    | last =>
      obtain ⟨offset, _, rfl, _⟩ := exists_placed_of_map hm
      exact .last
    | finish _ ih =>
      obtain ⟨offset, _, rfl, hmore⟩ := exists_placed_of_map hm
      exact .finish (ih hmore)
    | start _ ih =>
      obtain ⟨offset, _, rfl, hmore⟩ := exists_placed_of_map hm
      exact .start (ih hmore)
    | text _ ih =>
      obtain ⟨offset, _, rfl, hmore⟩ := exists_placed_of_map hm
      exact .text (ih hmore)
    | cdata _ ih =>
      obtain ⟨offset, _, rfl, hmore⟩ := exists_placed_of_map hm
      exact .cdata (ih hmore)
  · intro h
    induction h with
    | last => exact .last
    | finish _ ih => exact .finish ih
    | start _ ih => exact .start ih
    | text _ ih => exact .text ih
    | cdata _ ih => exact .cdata ih

/-- An element inside ends where the root ends or before. -/
theorem EndsRoot.of_le (h : EndsRoot n es) (hle : m ≤ n) (hm : 0 < m) : EndsRoot m es := by
  induction h generalizing m with
  | last =>
    obtain rfl : m = 1 := by omega
    exact .last
  | finish _ ih =>
    match m with
    | 1 => exact .last
    | m + 2 => exact .finish (ih (by omega) (by omega))
  | start _ ih => exact .start (ih (by omega) (by omega))
  | text _ ih => exact .text (ih hle hm)
  | cdata _ ih => exact .cdata (ih hle hm)

theorem EndsRoot.of_start (h : EndsRoot n (.start offset name tag scope :: ahead)) :
    EndsRoot (n + 1) ahead := by
  cases h with
  | start h => exact h

theorem EndsRoot.of_finish (h : EndsRoot n (.finish offset name :: ahead)) (hn : 1 < n) :
    EndsRoot (n - 1) ahead := by
  cases h with
  | last => omega
  | finish h => exact h

theorem EndsRoot.of_cdata (h : EndsRoot n (.cdata offset content :: ahead)) : EndsRoot n ahead := by
  cases h with
  | cdata h => exact h

/-- Behind the end of `n` elements, the root ends as many elements further out. -/
theorem EndsRoot.behind (h : EndsRoot m (es ++ ahead)) (hc : Closes n es) (hm : m = n + k)
    (hk : 0 < k) : EndsRoot k ahead := by
  induction hc generalizing m with
  | last =>
    cases h with
    | last => omega
    | finish h =>
      obtain rfl := Nat.add_right_cancel ((Nat.add_comm 1 k).symm.trans hm.symm)
      exact h
  | finish _ ih =>
    cases h with
    | last => omega
    | finish h => exact ih h (by omega)
  | start _ ih =>
    cases h with
    | start h => exact ih h (by omega)
  | text _ ih =>
    cases h with
    | text h => exact ih h hm
  | cdata _ ih =>
    cases h with
    | cdata h => exact ih h hm

theorem EndsRoot.of_runEvents (h : EndsRoot n (runEvents run ++ ahead)) : EndsRoot n ahead := by
  match hblank : run.dropWhile Text.isBlank with
  | [] =>
    rw [runEvents_of_blank hblank] at h
    exact h
  | c :: raw =>
    rw [runEvents_of_ne_blank hblank] at h
    cases h with
    | text h => exact h

theorem Closes.behind_runEvents (h : Closes n es) (run : List Char) :
    Closes n (runEvents run ++ es) := by
  match hblank : run.dropWhile Text.isBlank with
  | [] =>
    rw [runEvents_of_blank hblank]
    exact h
  | c :: raw =>
    rw [runEvents_of_ne_blank hblank]
    exact .text h

/-! ### The text of an element -/

namespace ScanState

/-- What is remembered behind the ends of that many elements. -/
def outer (depth : Nat) (state : ScanState) : ScanState :=
  ⟨state.opened.drop depth, state.scopes.drop depth, 0⟩

theorem outer_outer (state : ScanState) (m n : Nat) :
    (state.outer m).outer n = state.outer (m + n) := by
  simp only [outer, List.drop_drop]

/-- What is found in markup behind which the root ends. -/
theorem find_of_endsRoot {state : ScanState} (h : EndsRoot n ((state.find p).2 ++ ahead)) :
    match p with
    | .aside => state.find p = (state.unplaced, [])
    | .namelessDoctype => False
    | .cdata content => state.find p = (state.unplaced, [.cdata 0 content])
    | .startTag tag empty =>
      let scope := (state.scope.declareAll (tag.attributes false).1).1
      let opening := Event.start 0 (state.scope.nameOf tag) tag scope
      state.find p = if empty then (state.unplaced, [opening, .finish 0 (state.scope.nameOf tag)])
        else (⟨tag.name :: state.opened, scope :: state.scopes, 0⟩, [opening])
    | .endTag name => ∃ outer, state.opened = name :: outer ∧
        state.find p = (state.close.unplaced, [.finish 0 (state.scope.resolveElement name)]) := by
  cases p with
  | aside | cdata => rfl
  | namelessDoctype => cases h
  | startTag tag empty =>
    cases hd : (state.scope.declareAll (tag.attributes false).1).2 with
    | some defect =>
      cases empty <;> simp only [find, read, start, hd] at h <;> cases h
    | none =>
      cases empty <;> simp only [find, read, start_of_declared hd] <;> rfl
  | endTag name =>
    simp only [find, read, endTag] at h ⊢
    split at h
    · cases h
    next ho =>
    split at h
    · next he =>
      refine ⟨_, eq_of_beq he ▸ ho, ?_⟩
      simp only [he, ↓reduceIte]
      rfl
    · cases h

end ScanState

theorem Passes.congr {state' state'' : ScanState} (h : Passes state front es state'')
    (hs : state''.unplaced = state'.unplaced) : Passes state front es state' := fun rest =>
  (h rest).trans (congrArg _ (reading_congr hs))

/-- One piece of markup behind a run of character data. -/
theorem exists_passes_markup (state : ScanState) {run markup : List Char}
    (hrun : ∀ c ∈ run, c ≠ '<') (hm : markupOf markup = .ok (p, rest)) : ∃ used,
    markup = used ++ rest ∧ Passes state (run ++ '<' :: used)
      (runEvents run ++ (state.unplaced.find p).2) (state.unplaced.find p).1 := by
  obtain ⟨content, he, hp⟩ := markupOf_eq_ok_iff.1 hm
  obtain ⟨used, rfl, hback⟩ := enclosed_split he
  refine ⟨used, rfl, fun back => ?_⟩
  have hmarkup : markupOf (used ++ back) = .ok (p, back) :=
    markupOf_eq_ok_iff.2 ⟨content, hback back, hp⟩
  rw [List.append_assoc, List.cons_append, reading_run hrun, reading_markup rfl hmarkup,
    List.append_assoc]

/-- Where the end of the root is read, it is in the text. -/
theorem exists_behindRoot {state : ScanState} {cs : List Char}
    (h : EndsRoot depth (reading state cs)) : ∃ rest, behindRoot cs.length depth cs = some rest :=
  behindRoot_of_endsRoot (endsRoot_unplaced.1 h)

/-- Inside the root, the markup is the last of an element that is open, or there is more to close. -/
theorem ScanState.closes_find {state : ScanState} (hd : 0 < depth) (hk : 0 < k)
    (hend : EndsRoot (depth + k) ((state.find p).2 ++ ahead)) :
    match p.depthBehind depth with
    | none => Closes depth (state.find p).2 ∧ (state.find p).1 = state.outer depth
    | some d => 0 < d ∧ EndsRoot (d + k) ahead ∧ (state.find p).1.outer d = state.outer depth ∧
        ∀ es, Closes d es → Closes depth ((state.find p).2 ++ es) := by
  have hfound := find_of_endsRoot hend
  cases p with
  | aside => exact ⟨hd, hend, rfl, fun _ hc => hc⟩
  | namelessDoctype => exact hfound.elim
  | cdata content => exact ⟨hd, hend.of_cdata, rfl, fun _ hc => .cdata hc⟩
  | startTag tag empty =>
    cases empty with
    | false =>
      simp only [Bool.false_eq_true, ↓reduceIte] at hfound
      rw [hfound] at hend ⊢
      have hend := hend.of_start
      rw [Nat.add_right_comm] at hend
      exact ⟨Nat.succ_pos _, hend, rfl, fun _ hc => .start hc⟩
    | true =>
      simp only [↓reduceIte] at hfound
      rw [hfound] at hend ⊢
      obtain ⟨depth, rfl⟩ := Nat.exists_eq_add_one.2 hd
      exact ⟨hd, hend.of_start.of_finish (by omega), rfl, fun _ hc => .start (.finish hc)⟩
  | endTag name =>
    obtain ⟨outer, _, hfound⟩ := hfound
    rw [hfound] at hend ⊢
    have hclose : state.close.unplaced = state.outer 1 := by
      simp only [ScanState.outer, List.drop_one]
      rfl
    match depth with
    | 1 => exact ⟨.last, hclose⟩
    | depth + 2 =>
      have hend := hend.of_finish (by omega)
      rw [show depth + 2 + k - 1 = depth + 1 + k by omega] at hend
      refine ⟨Nat.succ_pos _, hend, ?_, fun _ hc => .finish hc⟩
      rw [hclose, ScanState.outer_outer]
      exact congrArg (state.outer ·) (Nat.add_comm 1 (depth + 1))

/-- The text up to the end of `depth` elements is read in one way, whatever is behind it. -/
theorem exists_passage {state : ScanState} {cs : List Char}
    (h : behindRoot steps depth cs = some rest) (hd : 0 < depth) (hk : 0 < k)
    (hend : EndsRoot (depth + k) (reading state cs)) : ∃ used es,
    cs = used ++ rest ∧ Passes state used es (state.outer depth) ∧ Closes depth es := by
  induction steps generalizing depth state cs with
  | zero => cases h
  | succ steps ih =>
    obtain ⟨run, markup, content, p, inner, rfl, hrun, he, hp, hbehind⟩ := behindRoot_eq_some h
    obtain ⟨front, rfl, hfront⟩ :=
      exists_passes_markup state hrun (markupOf_eq_ok_iff.2 ⟨content, he, hp⟩)
    have hsplit : run ++ '<' :: (front ++ inner) = run ++ '<' :: front ++ inner := by simp
    rw [hsplit, hfront, List.append_assoc] at hend
    have hstep := ScanState.closes_find hd hk hend.of_runEvents
    cases hd' : p.depthBehind depth with
    | none =>
      rw [hd'] at hbehind hstep
      cases hbehind
      obtain ⟨hcloses, hstate⟩ := hstep
      exact ⟨run ++ '<' :: front, _, hsplit, hstate ▸ hfront, hcloses.behind_runEvents run⟩
    | some d =>
      rw [hd'] at hbehind hstep
      obtain ⟨hpos, hinner, houter, hcloses⟩ := hstep
      obtain ⟨used, es, rfl, hpasses, hc⟩ := ih hbehind hpos hinner
      rw [houter] at hpasses
      refine ⟨run ++ '<' :: front ++ used, _, ?_, hfront.append hpasses, ?_⟩
      · rw [hsplit, List.append_assoc (run ++ '<' :: front)]
      · rw [List.append_assoc]
        exact (hcloses es hc).behind_runEvents run

theorem exists_passes_tag (state : ScanState) {markup : List Char}
    (hm : markupOf markup = .ok (p, rest)) : ∃ used, markup = used ++ rest ∧
      Passes state ('<' :: used) (state.unplaced.find p).2 (state.unplaced.find p).1 :=
  @exists_passes_markup _ _ state [] markup (List.forall_mem_nil _) hm

/-- Inside the root, an element that begins in front of a text ends in it, and it is read in one way,
whatever is behind it. -/
theorem exists_element {state : ScanState} {markup : List Char}
    (hm : markupOf markup = .ok (.startTag tag empty, remaining)) (hk : 0 < k)
    (hend : EndsRoot k (reading state ('<' :: markup))) : ∃ used rest scope es,
    behindRoot (markup.length + 1) 0 ('<' :: markup) = some rest ∧ markup = used ++ rest ∧
      Passes state ('<' :: used) (.start 0 (state.scope.nameOf tag) tag scope :: es) state ∧
      Closes 1 es := by
  obtain ⟨front, rfl, hfront⟩ := exists_passes_tag state hm
  rw [← List.cons_append, hfront] at hend
  have hfound := ScanState.find_of_endsRoot hend
  obtain ⟨content, he, hp⟩ := markupOf_eq_ok_iff.1 hm
  have hbehind :=
    @behindRoot_run _ _ _ _ (front ++ remaining).length 0 [] (List.forall_mem_nil _) he hp
  cases empty with
  | true =>
    simp only [↓reduceIte] at hfound
    rw [hfound] at hfront
    exact ⟨_, remaining, _, _, hbehind, rfl, hfront.congr rfl, .last⟩
  | false =>
    simp only [Bool.false_eq_true, ↓reduceIte] at hfound
    rw [hfound] at hend hfront
    have hend := hend.of_start
    obtain ⟨rest, hrest⟩ := exists_behindRoot (hend.of_le (Nat.succ_pos k) Nat.one_pos)
    obtain ⟨used, es, rfl, hpasses, hc⟩ :=
      exists_passage hrest Nat.one_pos hk (Nat.add_comm k 1 ▸ hend)
    have hlen : (used ++ rest).length ≤ (front ++ (used ++ rest)).length := by simp
    have hmore := behindRoot_append hrest hlen []
    rw [List.append_nil, List.append_nil] at hmore
    exact ⟨front ++ used, rest, _, _, hbehind.trans hmore, by simp,
      (hfront.append hpasses).congr rfl, hc⟩

theorem exists_markup_of_endsRoot {state : ScanState} {cs : List Char}
    (h : EndsRoot depth (reading state cs)) : ∃ run markup p remaining,
    cs = run ++ '<' :: markup ∧ (∀ c ∈ run, c ≠ '<') ∧ markupOf markup = .ok (p, remaining) := by
  obtain ⟨rest, hrest⟩ := exists_behindRoot h
  cases hlen : cs.length with
  | zero =>
    rw [hlen] at hrest
    cases hrest
  | succ steps =>
    rw [hlen] at hrest
    obtain ⟨run, markup, content, p, remaining, hcs, hrun, he, hp, _⟩ := behindRoot_eq_some hrest
    exact ⟨run, markup, p, remaining, hcs, hrun, markupOf_eq_ok_iff.2 ⟨content, he, hp⟩⟩

end ManagementScript.Xml
