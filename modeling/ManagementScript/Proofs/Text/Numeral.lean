import Mathlib.Data.Nat.Digits.Defs
import ManagementScript.Proofs.Tree.Trimming
import ManagementScript.Text.Numeral

/-!
Which texts are whole numbers. A number is written by its decimal digits, leading zeros allowed, with at
most one sign before them and white space around it.
-/

namespace ManagementScript.Text

/-- The decimal digits of a number, at least one, the most significant first. -/
structure IsDecimal (cs : List Char) (n : Nat) : Prop where
  nonempty : cs ≠ []
  digits : ∀ c ∈ cs, c.isDigit = true
  value : n = Nat.ofDigits 10 (cs.map fun c => c.toNat - '0'.toNat).reverse

/-- The digits of a number with at most one sign before them. -/
inductive IsNumeral : List Char → Int → Prop where
  | unsigned (h : IsDecimal cs n) : IsNumeral cs n
  | plus (h : IsDecimal cs n) : IsNumeral ('+' :: cs) n
  | minus (h : IsDecimal cs n) : IsNumeral ('-' :: cs) (-n)

/-- The text is a number with white space around it. -/
def Represents (raw : String) (n : Int) : Prop :=
  ∃ front numeral back, raw.toList = front ++ (numeral ++ back) ∧
    (∀ c ∈ front, isWhiteSpace c = true) ∧ (∀ c ∈ back, isWhiteSpace c = true) ∧ IsNumeral numeral n

/-! ### Digits -/

theorem foldl_digits (cs : List Char) :
    cs.foldl (fun n c => n * 10 + (c.toNat - '0'.toNat)) 0 =
      Nat.ofDigits 10 (cs.map fun c => c.toNat - '0'.toNat).reverse := by
  induction cs using List.reverseRecOn with
  | nil => rfl
  | append_singleton cs c ih =>
    rw [List.foldl_append, ih, List.map_append, List.reverse_append]
    simp only [List.foldl_cons, List.foldl_nil, List.map_cons, List.map_nil, List.reverse_singleton,
      List.singleton_append, Nat.ofDigits_cons]
    omega

theorem decimal?_eq_some_iff : decimal? cs = some n ↔ IsDecimal cs n := by
  rw [decimal?, foldl_digits]
  apply Iff.intro
  · intro h
    split at h
    · cases h
    · next hc =>
      simp only [Bool.or_eq_true, List.isEmpty_iff, List.any_eq_true, Bool.not_eq_true',
        not_or, not_exists, not_and, Bool.not_eq_false] at hc
      exact ⟨hc.1, hc.2, (Option.some.inj h).symm⟩
  · rintro ⟨hne, hdigits, rfl⟩
    have hall : cs.any (!·.isDigit) = false := by
      simpa only [List.any_eq_false, Bool.not_eq_true', Bool.not_eq_false] using hdigits
    rw [if_neg (by simp only [hall, Bool.or_false, List.isEmpty_iff, hne, not_false_eq_true])]

theorem IsDecimal.ne_sign (h : IsDecimal (c :: cs) n) : c ≠ '-' ∧ c ≠ '+' := by
  have hdigit := h.digits c (List.mem_cons_self ..)
  constructor
  · rintro rfl
    exact absurd hdigit (by decide)
  · rintro rfl
    exact absurd hdigit (by decide)

theorem signedDecimal?_eq_some_iff : signedDecimal? cs = some n ↔ IsNumeral cs n := by
  apply Iff.intro
  · intro h
    unfold signedDecimal? at h
    split at h
    · obtain ⟨m, hm, rfl⟩ := Option.map_eq_some_iff.1 h
      exact .minus (decimal?_eq_some_iff.1 hm)
    · obtain ⟨m, hm, rfl⟩ := Option.map_eq_some_iff.1 h
      exact .plus (decimal?_eq_some_iff.1 hm)
    · obtain ⟨m, hm, rfl⟩ := Option.map_eq_some_iff.1 h
      exact .unsigned (decimal?_eq_some_iff.1 hm)
  · intro h
    cases h with
    | minus h => exact Option.map_eq_some_iff.2 ⟨_, decimal?_eq_some_iff.2 h, rfl⟩
    | plus h => exact Option.map_eq_some_iff.2 ⟨_, decimal?_eq_some_iff.2 h, rfl⟩
    | unsigned h =>
      unfold signedDecimal?
      split
      · exact absurd rfl h.ne_sign.1
      · exact absurd rfl h.ne_sign.2
      · exact Option.map_eq_some_iff.2 ⟨_, decimal?_eq_some_iff.2 h, rfl⟩

/-! ### White space around a number -/

theorem isWhiteSpace_of_isDigit (h : c.isDigit = true) : isWhiteSpace c = false := by
  obtain ⟨hlow, hhigh⟩ := Char.isDigit_iff_toNat.1 h
  change 48 ≤ c.toNat at hlow
  change c.toNat ≤ 57 at hhigh
  simp only [isWhiteSpace, Bool.or_eq_false_iff, Bool.and_eq_false_iff, decide_eq_false_iff_not,
    beq_eq_false_iff_ne]
  omega

theorem IsNumeral.isDigit_or_sign (h : IsNumeral cs n) :
    ∀ c ∈ cs, c.isDigit = true ∨ c = '+' ∨ c = '-' := by
  cases h with
  | unsigned h => exact fun c hc => .inl (h.digits c hc)
  | plus h => exact List.forall_mem_cons.2 ⟨.inr (.inl rfl), fun c hc => .inl (h.digits c hc)⟩
  | minus h => exact List.forall_mem_cons.2 ⟨.inr (.inr rfl), fun c hc => .inl (h.digits c hc)⟩

theorem IsNumeral.not_isWhiteSpace (h : IsNumeral cs n) : ∀ c ∈ cs, isWhiteSpace c = false := by
  intro c hc
  rcases h.isDigit_or_sign c hc with hdigit | rfl | rfl
  · exact isWhiteSpace_of_isDigit hdigit
  · decide
  · decide

theorem represents_iff :
    Represents raw n ↔ signedDecimal? (trim isWhiteSpace raw.toList) = some n := by
  rw [signedDecimal?_eq_some_iff]
  apply Iff.intro
  · rintro ⟨front, numeral, back, he, hfront, hback, h⟩
    have hframed : IsFramed isWhiteSpace numeral :=
      ⟨fun c hc => h.not_isWhiteSpace c (List.mem_of_mem_head? hc),
        fun c hc => h.not_isWhiteSpace c (List.mem_of_mem_getLast? hc)⟩
    rwa [he, trim_eq hfront hback hframed]
  · intro h
    obtain ⟨front, numeral, back, he, hfront, hback, hframed⟩ := exists_framed isWhiteSpace raw.toList
    rw [he, trim_eq hfront hback hframed] at h
    exact ⟨front, numeral, back, he, hfront, hback, h⟩

/-- Around the digits and the sign stands white space only. -/
theorem Represents.mem (h : Represents raw n) :
    ∀ c ∈ raw.toList, isWhiteSpace c = true ∨ c.isDigit = true ∨ c = '+' ∨ c = '-' := by
  obtain ⟨front, numeral, back, he, hfront, hback, hn⟩ := h
  intro c hc
  rw [he, List.mem_append, List.mem_append] at hc
  rcases hc with hc | hc | hc
  · exact .inl (hfront c hc)
  · exact .inr (hn.isDigit_or_sign c hc)
  · exact .inl (hback c hc)

theorem Represents.unique (h : Represents raw n) (h' : Represents raw n') : n = n' :=
  Option.some.inj ((represents_iff.1 h).symm.trans (represents_iff.1 h'))

/-! ### Numbers as they are shown -/

theorem isDecimal_toDigits (n : Nat) : IsDecimal (Nat.toDigits 10 n) n where
  nonempty := Nat.toDigits_ne_nil
  digits _ hc := Nat.isDigit_of_mem_toDigits (by decide) (by decide) hc
  value := by
    rw [← foldl_digits]
    apply (Nat.ofDigitChars_ten_toDigits (n := n)).symm.trans
    simp only [Nat.ofDigitChars_eq_foldl, Nat.mul_comm 10]

theorem isNumeral_toString (n : Int) : IsNumeral (toString n).toList n := by
  cases n with
  | ofNat n =>
    have hshown : (toString (Int.ofNat n)).toList = Nat.toDigits 10 n := by
      rw [show toString (Int.ofNat n) = toString n from rfl, Nat.toString_eq_ofList_toDigits,
        String.toList_ofList]
    rw [hshown]
    exact .unsigned (isDecimal_toDigits n)
  | negSucc n =>
    have hshown : (toString (Int.negSucc n)).toList = '-' :: Nat.toDigits 10 (n + 1) := by
      rw [show toString (Int.negSucc n) = "-" ++ toString (n + 1) from rfl,
        Nat.toString_eq_ofList_toDigits]
      simp only [String.toList_append, String.toList_ofList]
      rfl
    rw [hshown]
    exact .minus (isDecimal_toDigits (n + 1))

theorem represents_toString (n : Int) : Represents (toString n) n :=
  ⟨[], _, [], by simp, List.forall_mem_nil _, List.forall_mem_nil _, isNumeral_toString n⟩

end ManagementScript.Text
