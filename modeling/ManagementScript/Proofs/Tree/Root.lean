import ManagementScript.Proofs.Tree.Ending
import ManagementScript.Proofs.Tree.Heads

/-!
Where the root of a document ends. The place is found in the text, by counting tags, and it does not
depend on what follows it; what is read up to the end tag of the root lies before it.
-/

namespace ManagementScript

namespace Xml

/-- What follows the end of the root, when `depth` elements are open before `cs`. -/
def behindRoot : (steps depth : Nat) → List Char → Option (List Char)
  | 0, _, _ => none
  | steps + 1, depth, cs =>
    match cs.dropWhile (· != '<') with
    | [] => none
    | _ :: cs =>
      match enclosed cs with
      | .error _ => none
      | .ok (content, rest) =>
        match piece content with
        | .error _ => none
        | .ok (.startTag _ empty) =>
          if !empty then behindRoot steps (depth + 1) rest
          else if depth = 0 then some rest else behindRoot steps depth rest
        | .ok (.endTag _) => if depth ≤ 1 then some rest else behindRoot steps (depth - 1) rest
        | .ok _ => behindRoot steps depth rest

/-- The offset in bytes behind the tag that closes the root. -/
def rootEnd? (source : String) : Option Nat :=
  (behindRoot source.length 0 (withoutMark source.toList)).map fun rest =>
    Text.byteCount source.toList - Text.byteCount rest

/-! ### Text before other text -/

/-- The number of elements that are open behind a piece of markup, none if it closes the root. -/
def Piece.depthBehind (depth : Nat) : Piece → Option Nat
  | .startTag _ false => some (depth + 1)
  | .startTag _ true => if depth = 0 then none else some depth
  | .endTag _ => if depth ≤ 1 then none else some (depth - 1)
  | .aside | .namelessDoctype | .cdata _ => some depth

theorem behindRoot_markup {cs : List Char} (hcs : cs.dropWhile (· != '<') = '<' :: markup)
    (he : enclosed markup = .ok (content, rest)) (hp : piece content = .ok p) :
    behindRoot (steps + 1) depth cs =
      (p.depthBehind depth).elim (some rest) (behindRoot steps · rest) := by
  simp only [behindRoot, hcs, he, hp]
  cases p with
  | aside | namelessDoctype | cdata => rfl
  | startTag tag empty =>
    cases empty with
    | false => rfl
    | true => by_cases hd : depth = 0 <;> simp [Piece.depthBehind, hd]
  | endTag name => by_cases hd : depth ≤ 1 <;> simp [Piece.depthBehind, hd]

/-- Where the root ends, there is markup in front of its end. -/
theorem behindRoot_eq_some {cs : List Char} (h : behindRoot (steps + 1) depth cs = some rest) :
    ∃ run markup content p remaining, cs = run ++ '<' :: markup ∧ (∀ c ∈ run, c ≠ '<') ∧
      enclosed markup = .ok (content, remaining) ∧ piece content = .ok p ∧
      (p.depthBehind depth).elim (some remaining) (behindRoot steps · remaining) = some rest := by
  cases hcs : cs.dropWhile (· != '<') with
  | nil =>
    simp only [behindRoot, hcs] at h
    cases h
  | cons c markup =>
  obtain rfl := head_dropWhile_opening hcs
  obtain ⟨run, rfl, hrun⟩ := exists_run hcs
  cases he : enclosed markup with
  | error defect =>
    simp only [behindRoot, hcs, he] at h
    cases h
  | ok found =>
  cases hp : piece found.1 with
  | error defect =>
    simp only [behindRoot, hcs, he, hp] at h
    cases h
  | ok p =>
    exact ⟨run, markup, found.1, p, found.2, rfl, hrun, he, hp, behindRoot_markup hcs he hp ▸ h⟩

theorem behindRoot_run {run : List Char} (hrun : ∀ c ∈ run, c ≠ '<')
    (he : enclosed markup = .ok (content, rest)) (hp : piece content = .ok p) :
    behindRoot (steps + 1) depth (run ++ '<' :: markup) =
      (p.depthBehind depth).elim (some rest) (behindRoot steps · rest) :=
  behindRoot_markup (span_markup hrun markup).2 he hp

/-- Text that follows a root does not change where the root ends. -/
theorem behindRoot_append (h : behindRoot steps depth cs = some rest) (hle : steps ≤ steps')
    (back : List Char) : behindRoot steps' depth (cs ++ back) = some (rest ++ back) := by
  induction steps generalizing steps' depth cs with
  | zero => cases h
  | succ steps ih =>
    obtain ⟨steps', rfl⟩ := Nat.exists_eq_add_one.2 (show 0 < steps' by omega)
    obtain ⟨run, markup, content, p, remaining, rfl, hrun, he, hp, h⟩ := behindRoot_eq_some h
    rw [List.append_assoc, List.cons_append, behindRoot_run hrun (enclosed_append he back) hp]
    cases hd : p.depthBehind depth with
    | none =>
      rw [hd] at h
      cases h
      rfl
    | some d =>
      rw [hd] at h
      exact ih h (Nat.le_of_succ_le_succ hle)

/-! ### Events up to the end of the root -/

/-- The end tag of the root is among the events, when `depth` elements are open before them. Nothing
is broken before it. -/
inductive EndsRoot : Nat → List Event → Prop where
  | last : EndsRoot 1 (.finish offset name :: ahead)
  | finish (h : EndsRoot (depth + 1) ahead) : EndsRoot (depth + 2) (.finish offset name :: ahead)
  | start (h : EndsRoot (depth + 1) ahead) : EndsRoot depth (.start offset name tag scope :: ahead)
  | text (h : EndsRoot depth ahead) : EndsRoot depth (.text offset raw :: ahead)
  | cdata (h : EndsRoot depth ahead) : EndsRoot depth (.cdata offset content :: ahead)

theorem behindRoot_text {cs : List Char}
    (h : behindRoot steps depth (cs.dropWhile (· != '<')) = some rest) :
    behindRoot (steps + 1) depth cs = some rest := by
  have hsame : behindRoot steps depth (cs.dropWhile (· != '<')) = behindRoot steps depth cs := by
    cases steps with
    | zero => rfl
    | succ steps => simp only [behindRoot, List.dropWhile_idempotent]
  have hmore := behindRoot_append (hsame ▸ h) (Nat.le_succ steps) []
  rwa [List.append_nil, List.append_nil] at hmore

theorem endsRoot_endTag {state : ScanState}
    (h : EndsRoot depth ((state.endTag first offset name).2 :: ahead)) :
    depth ≤ 1 ∨ 1 < depth ∧ EndsRoot (depth - 1) ahead := by
  simp only [ScanState.endTag] at h
  split at h
  · cases h
  split at h
  · cases h with
    | last => exact .inl (Nat.le_refl 1)
    | finish h => exact .inr ⟨by omega, h⟩
  · cases h

theorem endsRoot_start {state : ScanState}
    (h : EndsRoot depth ((state.start offset tag).2 :: ahead)) :
    EndsRoot (depth + 1) ahead := by
  simp only [ScanState.start] at h
  split at h
  · cases h
  · cases h with
    | start h => exact h

/-- Where the root does not end with a piece of markup, it ends behind what is found there. -/
theorem endsRoot_read {state : ScanState} {locate : Nat → Nat}
    (h : EndsRoot depth ((state.read locate offset first next p).2 ++ ahead)) (d : Nat)
    (hd : p.depthBehind depth = some d) : EndsRoot d ahead := by
  cases p with
  | aside =>
    cases hd
    exact h
  | namelessDoctype => cases h
  | cdata content =>
    cases hd
    cases h with
    | cdata h => exact h
  | endTag name =>
    simp only [Piece.depthBehind] at hd
    rcases endsRoot_endTag h with hle | ⟨hlt, h⟩
    · rw [if_pos hle] at hd
      cases hd
    · rw [if_neg (Nat.not_le.2 hlt)] at hd
      cases hd
      exact h
  | startTag tag empty =>
    cases empty with
    | false =>
      cases hd
      exact endsRoot_start h
    | true =>
      simp only [Piece.depthBehind] at hd
      cases endsRoot_start h with
      | last => cases hd
      | finish h =>
        rw [if_neg (Nat.succ_ne_zero _)] at hd
        cases hd
        exact h

/-- Where the scanner gives the end tag of the root, the root ends in the text. -/
theorem behindRoot_of_endsRoot {cs : List Char}
    (h : EndsRoot depth (scanFrom locate steps state [] offset cs)) :
    ∃ rest, behindRoot steps depth cs = some rest := by
  -- A step of the scanner gives the next event; text takes a step of its own there, and none here.
  induction steps generalizing state offset cs depth with
  | zero => cases h
  | succ steps ih =>
    have hstep := scanFrom_step locate steps state offset cs
    generalize scanFrom locate (steps + 1) state [] offset cs = es at h hstep
    cases hstep with
    | blank | defect => cases h
    | @markup markup p rest first next hcs hm =>
      obtain ⟨content, he, hp⟩ := markupOf_eq_ok_iff.1 hm
      have hopen : cs.dropWhile (· != '<') = '<' :: markup := by
        rw [← dropWhile_isBlank, hcs]
        rfl
      rw [behindRoot_markup hopen he hp]
      cases hd : p.depthBehind depth with
      | none => exact ⟨rest, rfl⟩
      | some d => exact ih (endsRoot_read h d hd)
    | @text c ahead next hcs hc =>
      cases h with
      | text h =>
        obtain ⟨rest, hrest⟩ := ih h
        have hahead : cs.dropWhile (· != '<') = ahead.dropWhile (· != '<') := by
          rw [← dropWhile_isBlank, hcs, dropWhile_cons_run hc]
        exact ⟨rest, behindRoot_text (hahead ▸ hrest)⟩

/-! ### The root of a text that is cut off -/

theorem withoutMark_append {front : List Char} (hne : front ≠ []) (back : List Char) :
    withoutMark (front ++ back) = withoutMark front ++ back := by
  cases front with
  | nil => exact absurd rfl hne
  | cons c front =>
    by_cases hc : c = '\ufeff'
    · subst hc
      rfl
    · simp [withoutMark, hc]

theorem length_withoutMark (cs : List Char) : (withoutMark cs).length ≤ cs.length := by
  unfold withoutMark
  split
  · exact Nat.le_succ _
  · exact Nat.le_refl _

theorem behindRoot_of_events {source : String} (h : EndsRoot 0 (events source)) :
    ∃ rest, behindRoot source.length 0 (withoutMark source.toList) = some rest := by
  obtain ⟨rest, hrest⟩ := behindRoot_of_endsRoot h
  have hle : (withoutMark source.toList).length ≤ source.length :=
    source.length_toList ▸ length_withoutMark source.toList
  have hmore := behindRoot_append hrest hle []
  rw [List.append_nil] at hmore
  exact ⟨_, hmore⟩

theorem rootEnd?_of_events {source : String} (h : EndsRoot 0 (events source)) :
    ∃ e, rootEnd? source = some e := by
  obtain ⟨rest, hrest⟩ := behindRoot_of_events h
  exact ⟨_, by rw [rootEnd?, hrest]; rfl⟩

/-- Where a text has the end of a root in it, the root of every text that it begins ends there. -/
theorem rootEnd?_le {source : String} {front back : List Char} (hs : source.toList = front ++ back)
    (h : EndsRoot 0 (events (String.ofList front))) (he : rootEnd? source = some e) :
    e ≤ Text.byteCount front := by
  obtain ⟨rest, hrest⟩ := behindRoot_of_events h
  rw [String.toList_ofList, String.length_ofList] at hrest
  have hne : front ≠ [] := by
    rintro rfl
    cases hrest
  have hlength : front.length ≤ source.length := by
    rw [← String.length_toList, hs, List.length_append]
    exact Nat.le_add_right _ _
  have hwhole := behindRoot_append hrest hlength back
  rw [← withoutMark_append hne, ← hs] at hwhole
  rw [rootEnd?, hwhole, Option.map_some, Option.some.injEq, hs, Text.byteCount_append,
    Text.byteCount_append] at he
  omega

end Xml

/-! ### What a cursor reads up to the end of the root -/

namespace Cursor

theorem Encloses.endsRoot_inside {c d : Cursor} (h : c.Encloses nodes d)
    (hd : Xml.EndsRoot (n + 1) d.pending) : Xml.EndsRoot (n + 2) c.pending := by
  induction h generalizing n with
  | finish hp hclose =>
    rw [hp]
    rw [(closeElement_pending hclose).1] at hd
    exact .finish hd
  | text hp _ _ ih =>
    rw [hp]
    exact (ih hd).text
  | cdata hp _ ih =>
    rw [hp]
    exact (ih hd).cdata
  | element hp hi _ _ ihin ih =>
    have hin := ihin (ih hd)
    rw [(openElement_reads hi).1] at hin
    rw [hp]
    exact .start hin

theorem Encloses.endsRoot {c d : Cursor} (h : c.Encloses nodes d) : Xml.EndsRoot 1 c.pending := by
  induction h with
  | finish hp _ =>
    rw [hp]
    exact .last
  | text hp _ _ ih =>
    rw [hp]
    exact ih.text
  | cdata hp _ ih =>
    rw [hp]
    exact ih.cdata
  | element hp hi hin _ _ ih =>
    have hchild := hin.endsRoot_inside ih
    rw [(openElement_reads hi).1] at hchild
    rw [hp]
    exact .start hchild

theorem Lands.endsRoot_of_start {c i : Cursor} (h : c.Lands ahead (.ok .start, i))
    (hi : Xml.EndsRoot (n + 1) i.pending) : Xml.EndsRoot n ahead := by
  generalize hm : (Except.ok Tag.start, i) = moved at h
  induction h with
  | start hopen =>
    cases hm
    rw [(openElement_reads hopen).1] at hi
    exact .start hi
  | ended | cut | stuck | finish => cases hm
  | text _ ih => exact (ih hm).text
  | cdata _ ih => exact (ih hm).cdata

theorem Lands.endsRoot_of_finish {c d : Cursor} (h : c.Lands ahead (.ok .finish, d)) :
    Xml.EndsRoot 1 ahead := by
  generalize hm : (Except.ok Tag.finish, d) = moved at h
  induction h with
  | finish => exact .last
  | ended | cut | stuck | start => cases hm
  | text _ ih => exact (ih hm).text
  | cdata _ ih => exact (ih hm).cdata

theorem closeElement_depth {c d : Cursor} {ahead : List Xml.Event}
    (h : (c.before ahead).closeElement offset name = .ok d) : d.depth = c.depth - 1 := by
  rw [depth, (closeElement_moves h).1, List.length_tail]
  rfl

theorem openElement_depth {c i : Cursor} {ahead : List Xml.Event}
    (h : (c.before ahead).openElement offset name tag scope = .ok i) : i.depth = c.depth + 1 := by
  rw [depth, (openElement_moves h).1]
  rfl

/-- What is skipped is read up to the end tag behind which `target` elements are open. -/
theorem endsRoot_of_skipAmong {c d : Cursor} {ahead : List Xml.Event} (hle : target ≤ c.depth)
    (h : skipAmong target c ahead = (.ok (), d)) :
    d.depth = target ∧ d.pending.length ≤ ahead.length ∧
      (Xml.EndsRoot target d.pending → Xml.EndsRoot c.depth ahead) := by
  induction ahead generalizing c with
  | nil =>
    rcases Nat.lt_or_ge target c.depth with ht | hd
    · cases (skipAmong_nil ht).symm.trans h
    · cases (skipAmong_stop hd []).symm.trans h
      exact ⟨Nat.le_antisymm hd hle, Nat.le_refl _, Nat.le_antisymm hle hd ▸ id⟩
  | cons event ahead ih =>
    rcases Nat.lt_or_ge target c.depth with ht | hd
    · cases event with
      | start offset name tag scope =>
        obtain ⟨i, hi, h⟩ := (skipAmong_start_eq_ok ht).1 h
        have hdepth : i.depth = c.depth + 1 := openElement_depth hi
        obtain ⟨hd, hlen, hend⟩ := ih (by omega) h
        exact ⟨hd, Nat.le_succ_of_le hlen, fun he => .start (hdepth ▸ hend he)⟩
      | finish offset name =>
        obtain ⟨o, ho, h⟩ := (skipAmong_finish_eq_ok ht).1 h
        have hdepth : o.depth = c.depth - 1 := closeElement_depth ho
        obtain ⟨hd, hlen, hend⟩ := ih (by omega) h
        refine ⟨hd, Nat.le_succ_of_le hlen, fun he => ?_⟩
        have hrest := hdepth ▸ hend he
        generalize c.depth = n at ht hrest ⊢
        match n with
        | 1 => exact .last
        | n + 2 => exact .finish hrest
      | text offset raw =>
        obtain ⟨hd, hlen, hend⟩ := @ih (c.before ahead) hle ((skipAmong_cons ht).symm.trans h)
        exact ⟨hd, Nat.le_succ_of_le hlen, fun he => (hend he).text⟩
      | cdata offset content =>
        obtain ⟨hd, hlen, hend⟩ := @ih (c.before ahead) hle ((skipAmong_cons ht).symm.trans h)
        exact ⟨hd, Nat.le_succ_of_le hlen, fun he => (hend he).cdata⟩
      | fault => cases (skipAmong_cons ht).symm.trans h
    · cases (skipAmong_stop hd _).symm.trans h
      exact ⟨Nat.le_antisymm hd hle, Nat.le_refl _, Nat.le_antisymm hle hd ▸ id⟩

end Cursor

end ManagementScript
