import Mathlib.Data.List.DropRight
import ManagementScript.Text.Blank

/-!
Texts without the white space around them, and what becomes of them when other characters of a text
are left out.
-/

namespace ManagementScript.Text

variable {α : Type}

/-- No character of the class `p` stands at an end. -/
structure IsFramed (p : α → Bool) (xs : List α) : Prop where
  head : ∀ x ∈ xs.head?, p x = false
  last : ∀ x ∈ xs.getLast?, p x = false

theorem dropWhile_of_head {p : α → Bool} {xs : List α} (h : ∀ x ∈ xs.head?, p x = false) :
    xs.dropWhile p = xs := by
  cases xs with
  | nil => rfl
  | cons x xs => exact List.dropWhile_cons_of_neg (by simp [h x rfl])

theorem head_dropWhile {p : α → Bool} (xs : List α) : ∀ x ∈ (xs.dropWhile p).head?, p x = false := by
  intro x hx
  have hp := List.head?_dropWhile_not p xs
  rw [Option.mem_def.1 hx] at hp
  exact hp

/-- Around what is left of a list stand characters of a class. -/
theorem exists_framed (p : α → Bool) (xs : List α) : ∃ front inner back,
    xs = front ++ (inner ++ back) ∧ (∀ x ∈ front, p x = true) ∧ (∀ x ∈ back, p x = true) ∧
      IsFramed p inner := by
  refine ⟨xs.takeWhile p, (xs.dropWhile p).rdropWhile p, (xs.dropWhile p).rtakeWhile p, ?_,
    fun x hx => List.mem_takeWhile_imp hx, fun x hx => List.mem_rtakeWhile_imp hx, ⟨?_, ?_⟩⟩
  · rw [List.rdropWhile_append_rtakeWhile, List.takeWhile_append_dropWhile]
  · intro x hx
    obtain ⟨rest, hrest⟩ := List.rdropWhile_prefix p (l := xs.dropWhile p)
    apply head_dropWhile xs
    rw [← hrest, List.head?_append, Option.mem_def.1 hx]
    rfl
  · intro x hx
    rw [List.rdropWhile, List.getLast?_reverse] at hx
    exact head_dropWhile _ x hx

theorem trim_eq {p : Char → Bool} {front inner back : List Char} (hf : ∀ x ∈ front, p x = true)
    (hb : ∀ x ∈ back, p x = true) (hi : IsFramed p inner) :
    trim p (front ++ (inner ++ back)) = inner := by
  have hback : trimEnd p (inner ++ back) = inner := by
    rw [trimEnd, List.reverse_append, List.dropWhile_append_of_pos (by simpa using hb),
      dropWhile_of_head, List.reverse_reverse]
    simpa using hi.last
  rw [trim, List.dropWhile_append_of_pos hf]
  cases inner with
  | nil =>
    rw [List.nil_append, List.dropWhile_eq_nil_iff.2 hb]
    rfl
  | cons x inner =>
    rw [List.cons_append, List.dropWhile_cons_of_neg (by simp [hi.head x rfl]), ← List.cons_append]
    exact hback

/-- More characters of the class around a text do not matter. -/
theorem trim_surrounded {p : Char → Bool} {front back : List Char} (hf : ∀ x ∈ front, p x = true)
    (hb : ∀ x ∈ back, p x = true) (cs : List Char) : trim p (front ++ (cs ++ back)) = trim p cs := by
  obtain ⟨lead, inner, trail, rfl, hlead, htrail, hi⟩ := exists_framed p cs
  have hassoc : front ++ (lead ++ (inner ++ trail) ++ back) =
      (front ++ lead) ++ (inner ++ (trail ++ back)) := by simp
  rw [hassoc, trim_eq hlead htrail hi, trim_eq (List.forall_mem_append.2 ⟨hf, hlead⟩)
    (List.forall_mem_append.2 ⟨htrail, hb⟩) hi]

/-! ### Characters left out -/

/-- What is left of characters of which some are left out. -/
def kept (marked : List (Char × Bool)) : List Char := (marked.filter (·.2)).map (·.1)

/-- No character that is left out stands between two others that are not of the class `p`. -/
def IsTight (p : Char → Bool) (marked : List (Char × Bool)) : Prop :=
  ∀ before c behind, marked = before ++ (c, false) :: behind →
    (∀ x ∈ before, p x.1 = true) ∨ ∀ x ∈ behind, p x.1 = true

theorem kept_append (xs ys : List (Char × Bool)) : kept (xs ++ ys) = kept xs ++ kept ys := by
  simp [kept]

theorem mem_of_mem_kept (h : c ∈ kept marked) : (c, true) ∈ marked := by
  obtain ⟨x, hx, rfl⟩ := List.mem_map.1 h
  obtain ⟨hmem, hkept⟩ := List.mem_filter.1 hx
  rwa [← hkept]

theorem kept_eq_iff {marked : List (Char × Bool)} :
    kept marked = marked.map (·.1) ↔ ∀ x ∈ marked, x.2 = true := by
  apply Iff.intro
  · intro h
    have hlength := congrArg List.length h
    rw [kept, List.length_map, List.length_map] at hlength
    exact List.length_filter_eq_length_iff.1 hlength
  · intro h
    rw [kept, List.filter_eq_self.2 h]

section

variable {p : Char → Bool} {front inner back : List (Char × Bool)}

/-- Where only characters of the class are left out, the ends of a framed text stay. -/
theorem framed_kept (h : ∀ x ∈ inner, x.2 = false → p x.1 = true)
    (hi : IsFramed (fun x => p x.1) inner) : IsFramed p (kept inner) := by
  have hstays (x : Char × Bool) (hx : x ∈ inner) (hp : p x.1 = false) : x.2 = true := by
    cases hleft : x.2 with
    | true => rfl
    | false =>
      rw [h x hx hleft] at hp
      cases hp
  apply IsFramed.mk
  · intro c hc
    cases inner with
    | nil => cases hc
    | cons x inner =>
      have hp := hi.head x rfl
      rw [kept, List.filter_cons_of_pos (hstays x (List.mem_cons_self ..) hp)] at hc
      cases hc
      exact hp
  · intro c hc
    rcases List.eq_nil_or_concat inner with rfl | ⟨front, x, rfl⟩
    · cases hc
    · have hp := hi.last x (by simp)
      have hx : kept [x] = [x.1] := by
        rw [kept, List.filter_cons_of_pos (hstays x (by simp) hp)]
        rfl
      rw [List.concat_eq_append, kept_append, hx, List.getLast?_concat] at hc
      cases hc
      exact hp

theorem isTight_iff (hf : ∀ x ∈ front, p x.1 = true) (hb : ∀ x ∈ back, p x.1 = true)
    (hi : IsFramed (fun x => p x.1) inner) (h : ∀ x ∈ inner, x.2 = false → p x.1 = true) :
    IsTight p (front ++ (inner ++ back)) ↔ ∀ x ∈ inner, x.2 = true := by
  apply Iff.intro
  · intro htight x hx
    by_contra hleft
    have hout : x = (x.1, false) := Prod.ext rfl (by simpa using hleft)
    have hp := h x hx (by simpa using hleft)
    obtain ⟨before, behind, rfl⟩ := List.append_of_mem hx
    have hne : p x.1 ≠ false := by simp [hp]
    rcases htight (front ++ before) x.1 (behind ++ back) (by simp [← hout]) with hall | hall
    · cases before with
      | nil => exact hne (hi.head x rfl)
      | cons y before =>
        have hy := hall y (by simp)
        rw [show p y.1 = false from hi.head y rfl] at hy
        cases hy
    · rcases List.eq_nil_or_concat behind with rfl | ⟨behind, y, rfl⟩
      · exact hne (hi.last x (by simp))
      · have hlast : (before ++ x :: behind.concat y).getLast? = some y := by
          rw [List.concat_eq_append, ← List.cons_append, ← List.append_assoc, List.getLast?_concat]
        have hy := hall y (by simp)
        rw [show p y.1 = false from hi.last y hlast] at hy
        cases hy
  · intro hall before c behind he
    rcases List.append_eq_append_iff.1 he with ⟨used, rfl, hrest⟩ | ⟨used, rfl, _⟩
    · rcases List.append_eq_append_iff.1 hrest with ⟨used', rfl, hback⟩ | ⟨used', rfl, hback⟩
      · refine .inr fun x hx => hb x ?_
        simp [hback, hx]
      · cases used' with
        | nil =>
          refine .inr fun x hx => hb x ?_
          rw [List.nil_append] at hback
          simp [← hback, hx]
        | cons y used' =>
          obtain ⟨rfl, _⟩ := List.cons.inj hback
          exact absurd (hall (c, false) (by simp)) Bool.false_ne_true
    · exact .inl fun x hx => hf x (by simp [hx])

/-- White space can be left out around a text without a trace, and inside it cannot. -/
theorem trim_kept_eq_iff {marked : List (Char × Bool)}
    (h : ∀ x ∈ marked, x.2 = false → p x.1 = true) :
    trim p (kept marked) = trim p (marked.map (·.1)) ↔ IsTight p marked := by
  obtain ⟨front, inner, back, rfl, hf, hb, hi⟩ := exists_framed (fun x => p x.1) marked
  have hinner (x : Char × Bool) (hx : x ∈ inner) : x.2 = false → p x.1 = true :=
    h x (by simp [hx])
  have hclass {xs : List (Char × Bool)} (hxs : ∀ x ∈ xs, p x.1 = true) :
      ∀ c ∈ kept xs, p c = true := fun c hc => hxs _ (mem_of_mem_kept hc)
  have hall : trim p ((front ++ (inner ++ back)).map (·.1)) = inner.map (·.1) := by
    rw [List.map_append, List.map_append]
    refine trim_eq (List.forall_mem_map.2 hf) (List.forall_mem_map.2 hb) ⟨?_, ?_⟩
    · intro c hc
      obtain ⟨x, hx, rfl⟩ := Option.map_eq_some_iff.1 (List.head?_map ▸ hc)
      exact hi.head x hx
    · intro c hc
      obtain ⟨x, hx, rfl⟩ := Option.map_eq_some_iff.1 (List.getLast?_map ▸ hc)
      exact hi.last x hx
  rw [hall, kept_append, kept_append,
    trim_eq (hclass hf) (hclass hb) (framed_kept hinner hi), kept_eq_iff, isTight_iff hf hb hi hinner]

end

end ManagementScript.Text
