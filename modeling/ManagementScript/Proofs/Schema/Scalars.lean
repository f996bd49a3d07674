import Mathlib.Data.List.Forall2
import ManagementScript.Proofs.Schema.Values
import ManagementScript.Proofs.Text.Numeral

/-!
Which texts are read as single values. A text that holds an expression is one, where expressions are
allowed; every other text is a value of the declared kind, or it is refused with the values that there
are to choose from.
-/

namespace ManagementScript

/-- A dollar sign with an opening brace stands in the text, and a closing brace somewhere behind it. -/
def HoldsExpression (raw : String) : Prop :=
  ∃ front inner back, raw.toList = front ++ '$' :: '\x7b' :: (inner ++ '\x7d' :: back)

theorem hasExpression_append (front inner back : List Char) :
    hasExpression (front ++ '$' :: '\x7b' :: (inner ++ '\x7d' :: back)) = true := by
  -- Where an opening stands in `front`, the closing brace at the end is behind it, too.
  induction front with
  | nil => simp [hasExpression]
  | cons c front ih =>
    rw [List.cons_append]
    generalize hcs : front ++ '$' :: '\x7b' :: (inner ++ '\x7d' :: back) = cs at ih ⊢
    unfold hasExpression
    split
    · next rest he =>
      obtain ⟨rfl, rfl⟩ := List.cons.inj he
      have hmem : '\x7d' ∈ front ++ '$' :: '\x7b' :: (inner ++ '\x7d' :: back) := by simp
      rw [hcs] at hmem
      simpa using hmem
    · next he =>
      obtain ⟨-, rfl⟩ := List.cons.inj he
      exact ih
    · next he => cases he

theorem isExpression_iff : isExpression raw = true ↔ HoldsExpression raw := by
  rw [isExpression]
  apply Iff.intro
  · intro h
    have hholds (cs : List Char) (h : hasExpression cs = true) :
        ∃ front inner back, cs = front ++ '$' :: '\x7b' :: (inner ++ '\x7d' :: back) := by
      fun_induction hasExpression cs with
      | case1 rest =>
        obtain ⟨inner, back, rfl⟩ := List.append_of_mem (List.contains_iff_mem.1 h)
        exact ⟨[], inner, back, rfl⟩
      | case2 c rest _ ih =>
        obtain ⟨front, inner, back, rfl⟩ := ih h
        exact ⟨c :: front, inner, back, rfl⟩
      | case3 => cases h
    exact hholds _ h
  · rintro ⟨front, inner, back, he⟩
    rw [he]
    exact hasExpression_append front inner back

/-! ### Letters in either case -/

theorem toNat_toLower (c : Char) :
    c.toLower.toNat = if 65 ≤ c.toNat ∧ c.toNat ≤ 90 then c.toNat + 32 else c.toNat := by
  split
  · next h =>
    have hcapital : c.val ≥ 'A'.val ∧ c.val ≤ 'Z'.val := h
    have hshifted : c.toLower = _ := dif_pos hcapital
    have hoffset : ('a'.val - 'A'.val).toNat = 32 := by decide
    change 65 ≤ c.val.toNat ∧ c.val.toNat ≤ 90 at h
    rw [hshifted]
    change (c.val + ('a'.val - 'A'.val)).toNat = c.val.toNat + 32
    rw [UInt32.toNat_add]
    omega
  · next h => exact congrArg Char.toNat (dif_neg h)

theorem toNat_toUpper (c : Char) :
    c.toUpper.toNat = if 97 ≤ c.toNat ∧ c.toNat ≤ 122 then c.toNat - 32 else c.toNat := by
  split
  · next h =>
    have hsmall : 'a'.val ≤ c.val ∧ c.val ≤ 'z'.val := h
    -- The offset of the capitals is a negative one.
    have hshifted : c.toUpper = _ := dif_pos hsmall
    have hoffset : ('A'.val - 'a'.val).toNat = 4294967264 := by decide
    change 97 ≤ c.val.toNat ∧ c.val.toNat ≤ 122 at h
    rw [hshifted]
    change (c.val + ('A'.val - 'a'.val)).toNat = c.val.toNat - 32
    rw [UInt32.toNat_add]
    omega
  · next h => exact congrArg Char.toNat (dif_neg h)

theorem toLower_eq_iff {c letter : Char} (h : letter.isLower = true) :
    c.toLower = letter ↔ c = letter ∨ c = letter.toUpper := by
  have hsmall : 97 ≤ letter.toNat ∧ letter.toNat ≤ 122 :=
    ((Bool.and_eq_true _ _).mp h).imp of_decide_eq_true of_decide_eq_true
  rw [← Char.toNat_inj, ← Char.toNat_inj, ← Char.toNat_inj, toNat_toLower, toNat_toUpper,
    if_pos hsmall]
  split <;> omega

/-- The text is the word, some of whose letters may be capitals. -/
def CaseVariant (raw word : String) : Prop :=
  List.Forall₂ (fun c letter => c = letter ∨ c = letter.toUpper) raw.toList word.toList

theorem map_toLower_eq_iff {letters : List Char} (h : ∀ c ∈ letters, c.isLower = true) :
    cs.map Char.toLower = letters ↔
      List.Forall₂ (fun c letter => c = letter ∨ c = letter.toUpper) cs letters := by
  induction letters generalizing cs with
  | nil => rw [List.map_eq_nil_iff, List.forall₂_nil_right_iff]
  | cons letter letters ih =>
    obtain ⟨hletter, hletters⟩ := List.forall_mem_cons.1 h
    cases cs with
    | nil => exact iff_of_false nofun nofun
    | cons c cs =>
      rw [List.map_cons, List.cons.injEq, List.forall₂_cons, toLower_eq_iff hletter, ih hletters]

theorem sameIgnoringCase_iff {raw word : String} (h : ∀ c ∈ word.toList, c.isLower = true) :
    AttributeDefinition.sameIgnoringCase raw word = true ↔ CaseVariant raw word := by
  have hword : word.toList.map Char.toLower = word.toList :=
    (map_toLower_eq_iff h).2 (List.forall₂_same.2 fun _ _ => .inl rfl)
  rw [AttributeDefinition.sameIgnoringCase, beq_iff_eq, hword, map_toLower_eq_iff h, CaseVariant]

theorem CaseVariant.unique {b b' : Bool} (h : CaseVariant raw (toString b))
    (h' : CaseVariant raw (toString b')) : b = b' := by
  have hlength := h.length_eq.symm.trans h'.length_eq
  clear h h'
  revert b b'
  decide

/-! ### Values of a kind -/

/-- The texts of the kind, where there are only some to choose from. -/
def ValueKind.choices : ValueKind → List String
  | boolean => ["true", "false"]
  | enumerated allowed => allowed
  | string | int | long | list => []

/-- A number that takes no more than the bits besides its sign, and is not below the least value. -/
structure InRange (least : Option Int) (bits : Nat) (n : Int) : Prop where
  low : -2 ^ bits ≤ n
  high : n ≤ 2 ^ bits - 1
  least : ∀ min ∈ least, min ≤ n

/-- The text stands for a value of the kind. -/
inductive IsLiteral (least : Option Int) (raw : String) : ValueKind → Value → Prop where
  | string : IsLiteral least raw .string (.string raw)
  | boolean (h : CaseVariant raw (toString b)) : IsLiteral least raw .boolean (.boolean b)
  | int (h : Text.Represents raw n) (hn : InRange least 31 n) : IsLiteral least raw .int (.int n)
  | long (h : Text.Represents raw n) (hn : InRange least 63 n) : IsLiteral least raw .long (.long n)
  | enumerated (h : raw ∈ allowed) : IsLiteral least raw (.enumerated allowed) (.string raw)

theorem IsLiteral.unique (h : IsLiteral least raw kind v) (h' : IsLiteral least raw kind v') :
    v = v' := by
  cases h with
  | string | enumerated =>
    cases h'
    rfl
  | boolean h =>
    cases h' with
    | boolean h' => rw [h.unique h']
  | int h =>
    cases h' with
    | int h' => rw [h.unique h']
  | long h =>
    cases h' with
    | long h' => rw [h.unique h']

namespace AttributeDefinition

variable {d : AttributeDefinition} {raw : String} {attr : AttributeName} {position : Position}

theorem readNumber?_eq_some_iff {low high : Int} :
    readNumber? low high raw = some n ↔ Text.Represents raw n ∧ low ≤ n ∧ n ≤ high := by
  rw [Text.represents_iff, readNumber?]
  split
  · next m hm =>
    rw [hm, Option.ite_none_right_eq_some, Option.some.injEq]
    apply Iff.intro
    · rintro ⟨hb, rfl⟩
      exact ⟨rfl, hb⟩
    · rintro ⟨rfl, hb⟩
      exact ⟨hb, rfl⟩
  · next hn => simp [hn]

theorem belowMin?_eq_none_iff : d.belowMin? n = none ↔ ∀ min ∈ d.min, min ≤ n := by
  rw [belowMin?]
  split
  · next min hmin => simp [hmin]
  · next hmin => simp [hmin]

/-- A number is read where the text stands for one in range. Otherwise it is below the least value, or
there is none within the bits. -/
theorem number_cases (d : AttributeDefinition) (raw : String) (bits : Nat) (low high : Int)
    (hlow : low = -2 ^ bits) (hhigh : high = 2 ^ bits - 1) :
    (∃ n, readNumber? low high raw = some n ∧ d.belowMin? n = none ∧ Text.Represents raw n ∧
      InRange d.min bits n) ∨
    (∀ n, Text.Represents raw n → ¬InRange d.min bits n) ∧
      ((∃ n reason, readNumber? low high raw = some n ∧ d.belowMin? n = some reason) ∨
        readNumber? low high raw = none) := by
  subst hlow hhigh
  cases hread : readNumber? (-2 ^ bits) (2 ^ bits - 1) raw with
  | none =>
    refine .inr ⟨fun n h hn => ?_, .inr rfl⟩
    rw [readNumber?_eq_some_iff.2 ⟨h, hn.low, hn.high⟩] at hread
    cases hread
  | some n =>
    obtain ⟨h, hlow, hhigh⟩ := readNumber?_eq_some_iff.1 hread
    cases hmin : d.belowMin? n with
    | none => exact .inl ⟨n, rfl, hmin, h, hlow, hhigh, belowMin?_eq_none_iff.1 hmin⟩
    | some reason =>
      refine .inr ⟨fun n' h' hn => ?_, .inl ⟨n, reason, rfl, hmin⟩⟩
      rw [h.unique h', belowMin?_eq_none_iff.2 hn.least] at hmin
      cases hmin

/-- What a text is read as. -/
inductive Reads (d : AttributeDefinition) (raw : String) : Value → Prop where
  | expression (hd : d.acceptsExpression = true) (h : HoldsExpression raw) :
      Reads d raw (.expression raw)
  | literal (hd : d.acceptsExpression = true → ¬HoldsExpression raw)
      (h : IsLiteral d.min raw d.kind v) : Reads d raw v

theorem Reads.unique (h : d.Reads raw v) (h' : d.Reads raw v') : v = v' := by
  cases h with
  | expression hd h =>
    cases h' with
    | expression => rfl
    | literal hd' => exact absurd h (hd' hd)
  | literal hd h =>
    cases h' with
    | expression hd' h' => exact absurd h' (hd hd')
    | literal _ h' => exact h.unique h'

/-- How a text is read: as what it stands for, or it is refused if it stands for nothing. -/
inductive ReadTo (d : AttributeDefinition) (raw : String) (attr : AttributeName) (position : Position) :
    Except CompilationError Value → Prop where
  | ok (h : d.Reads raw v) : ReadTo d raw attr position (.ok v)
  | refused (h : ∀ v, ¬d.Reads raw v) (reason : String) : ReadTo d raw attr position
      (.error (.invalidValue attr.localName raw reason d.kind.choices position))

theorem parse_expression (hd : d.acceptsExpression = true) (h : HoldsExpression raw) :
    d.parse raw attr position = .ok (.expression raw) := by
  rw [parse, hd, isExpression_iff.2 h]
  rfl

section

variable (hd : d.acceptsExpression = true → ¬HoldsExpression raw)

include hd

theorem not_isExpression : (d.acceptsExpression && isExpression raw) = false := by
  rw [Bool.eq_false_iff, Ne, Bool.and_eq_true, isExpression_iff]
  exact fun h => hd h.1 h.2

theorem readTo_ok (h : IsLiteral d.min raw d.kind v) : d.ReadTo raw attr position (.ok v) :=
  .ok (.literal hd h)

theorem readTo_refused (h : ∀ v, ¬IsLiteral d.min raw d.kind v) (reason : String) :
    d.ReadTo raw attr position
      (.error (.invalidValue attr.localName raw reason d.kind.choices position)) := by
  refine .refused (fun v hv => ?_) reason
  cases hv with
  | expression hd' h' => exact hd hd' h'
  | literal _ h' => exact h v h'

theorem parse_boolean (hk : d.kind = .boolean) :
    d.ReadTo raw attr position (d.parse raw attr position) := by
  have hok := @readTo_ok d raw attr position
  have hrefused := @readTo_refused d raw attr position hd
  have hsame (b : Bool) : sameIgnoringCase raw (toString b) = true ↔ CaseVariant raw (toString b) :=
    sameIgnoringCase_iff (List.all_eq_true.1 (by cases b <;> rfl))
  rw [hk] at hok hrefused
  simp only [parse, not_isExpression hd, hk, Bool.false_eq_true, if_false]
  split
  · next h => exact hok hd (.boolean ((hsame true).1 h))
  next htrue =>
  split
  · next h => exact hok hd (.boolean ((hsame false).1 h))
  next hfalse =>
  refine hrefused (fun v hv => ?_) _
  cases hv with
  | @boolean b hv =>
    cases b with
    | true => exact htrue ((hsame true).2 hv)
    | false => exact hfalse ((hsame false).2 hv)

theorem parse_enumerated (hk : d.kind = .enumerated allowed) :
    d.ReadTo raw attr position (d.parse raw attr position) := by
  have hok := @readTo_ok d raw attr position
  have hrefused := @readTo_refused d raw attr position hd
  rw [hk] at hok hrefused
  simp only [parse, not_isExpression hd, hk, Bool.false_eq_true, if_false, List.contains_iff_mem]
  split
  · next h => exact hok hd (.enumerated h)
  · next h =>
    refine hrefused (fun v hv => ?_) _
    cases hv with
    | enumerated hv => exact h hv

theorem readTo_number {low high : Int} {value : Int → Value} {expected : String} (bits : Nat)
    (hlow : low = -2 ^ bits) (hhigh : high = 2 ^ bits - 1) (hchoices : d.kind.choices = [])
    (hvalue : ∀ v, IsLiteral d.min raw d.kind v ↔
      ∃ n, v = value n ∧ Text.Represents raw n ∧ InRange d.min bits n) :
    d.ReadTo raw attr position
      (match readNumber? low high raw with
      | some n =>
        match d.belowMin? n with
        | some reason => .error (.invalidValue attr.localName raw reason [] position)
        | none => .ok (value n)
      | none => .error (.invalidValue attr.localName raw expected [] position)) := by
  have hrefused := @readTo_refused d raw attr position hd
  rw [hchoices] at hrefused
  rcases d.number_cases raw bits low high hlow hhigh with
    ⟨n, hread, hmin, h, hn⟩ | ⟨hnone, hread⟩
  · simp only [hread, hmin]
    exact readTo_ok hd ((hvalue _).2 ⟨n, rfl, h, hn⟩)
  · have hliteral (v : Value) (hv : IsLiteral d.min raw d.kind v) : False := by
      obtain ⟨n, -, h, hn⟩ := (hvalue v).1 hv
      exact hnone n h hn
    rcases hread with ⟨n, reason, hread, hmin⟩ | hread
    · simp only [hread, hmin]
      exact hrefused hliteral reason
    · simp only [hread]
      exact hrefused hliteral expected

theorem parse_int (hk : d.kind = .int) :
    d.ReadTo raw attr position (d.parse raw attr position) := by
  simp only [parse, not_isExpression hd, hk, Bool.false_eq_true, if_false]
  refine readTo_number hd 31 rfl rfl (hk ▸ rfl) fun v => ?_
  rw [hk]
  apply Iff.intro
  · intro hv
    cases hv with
    | int h hn => exact ⟨_, rfl, h, hn⟩
  · rintro ⟨n, rfl, h, hn⟩
    exact .int h hn

theorem parse_long (hk : d.kind = .long) :
    d.ReadTo raw attr position (d.parse raw attr position) := by
  simp only [parse, not_isExpression hd, hk, Bool.false_eq_true, if_false]
  refine readTo_number hd 63 rfl rfl (hk ▸ rfl) fun v => ?_
  rw [hk]
  apply Iff.intro
  · intro hv
    cases hv with
    | long h hn => exact ⟨_, rfl, h, hn⟩
  · rintro ⟨n, rfl, h, hn⟩
    exact .long h hn

end

theorem parse_readTo (hk : d.kind ≠ .list) :
    d.ReadTo raw attr position (d.parse raw attr position) := by
  by_cases hx : d.acceptsExpression = true ∧ HoldsExpression raw
  · rw [parse_expression hx.1 hx.2]
    exact .ok (.expression hx.1 hx.2)
  have hd : d.acceptsExpression = true → ¬HoldsExpression raw := fun hd h => hx ⟨hd, h⟩
  cases hkind : d.kind with
  | list => exact absurd hkind hk
  | string =>
    simp only [parse, not_isExpression hd, hkind, Bool.false_eq_true, if_false]
    exact readTo_ok hd (hkind ▸ .string)
  | boolean => exact parse_boolean hd hkind
  | int => exact parse_int hd hkind
  | long => exact parse_long hd hkind
  | enumerated allowed => exact parse_enumerated hd hkind

theorem Reads.of_represents (h : Text.Represents raw n) (hv : IsLiteral d.min raw d.kind v) :
    d.Reads raw v := by
  refine .literal (fun _ => ?_) hv
  rintro ⟨front, inner, back, he⟩
  have hdollar : '$' ∈ raw.toList := by simp [he]
  exact absurd (h.mem '$' hdollar) (by decide)

theorem parse_eq_ok_iff_reads (hk : d.kind ≠ .list) :
    d.parse raw attr position = .ok v ↔ d.Reads raw v := by
  have h := @parse_readTo d raw attr position hk
  generalize d.parse raw attr position = result at h
  cases h with
  | ok h =>
    rw [Except.ok.injEq]
    exact ⟨fun he => he ▸ h, h.unique⟩
  | refused h => exact iff_of_false nofun (h v)

/-- A text is read as the value that it stands for, and a text that stands for none is refused with all
the values there are to choose from. A number is read from its digits. -/
theorem scalar_read_exactly (d : AttributeDefinition) (raw : String) (attr : AttributeName)
    (position : Position) (hk : d.kind ≠ .list) :
    (∀ v, d.parse raw attr position = .ok v ↔ d.Reads raw v) ∧
    ((∀ v, ¬d.Reads raw v) ↔ ∃ reason, d.parse raw attr position =
      .error (.invalidValue attr.localName raw reason d.kind.choices position)) ∧
    (∀ n, d.kind = .int → InRange d.min 31 n → d.parse (toString n) attr position = .ok (.int n)) ∧
    ∀ n, d.kind = .long → InRange d.min 63 n →
      d.parse (toString n) attr position = .ok (.long n) := by
  refine ⟨fun v => parse_eq_ok_iff_reads hk, ?_, fun n hint hn => ?_, fun n hlong hn => ?_⟩
  · have h := @parse_readTo d raw attr position hk
    generalize d.parse raw attr position = result at h
    cases h with
    | @ok v h => exact iff_of_false (fun hnone => hnone v h) nofun
    | refused h reason => exact iff_of_true h ⟨reason, rfl⟩
  · have h := Text.represents_toString n
    exact (parse_eq_ok_iff_reads hk).2 (.of_represents h (hint ▸ .int h hn))
  · have h := Text.represents_toString n
    exact (parse_eq_ok_iff_reads hk).2 (.of_represents h (hlong ▸ .long h hn))

/-- Leading zeros, a sign and white space do not matter, and a number below the least one is refused. -/
theorem scalar_read_exactly_int :
    ((int "p").withMin 1).parse "\t+007\n" .unknown .unread = .ok (.int 7) ∧
    ((int "p").withMin 1).parse (toString (2147483647 : Int)) .unknown .unread =
      .ok (.int 2147483647) ∧
    ∃ reason, ((int "p").withMin 1).parse "-0" .unknown .unread =
      .error (.invalidValue AttributeName.unknown.localName "-0" reason [] .unread) := by
  have hk : ((int "p").withMin 1).kind ≠ .list := by decide
  have hseven : Text.Represents "\t+007\n" 7 := Text.represents_iff.2 (by decide)
  have hzero : Text.Represents "-0" 0 := Text.represents_iff.2 (by decide)
  refine ⟨?_, ?_, ?_⟩
  · refine ((scalar_read_exactly _ _ .unknown .unread hk).1 _).2 (.of_represents hseven ?_)
    exact .int hseven ⟨by decide, by decide, by simp [withMin]⟩
  · refine (scalar_read_exactly _ "" .unknown .unread hk).2.2.1 _ rfl ?_
    exact ⟨by decide, by decide, by simp [withMin]⟩
  · refine (scalar_read_exactly _ "-0" .unknown .unread hk).2.1.1 fun v hv => ?_
    cases hv with
    | expression _ h => exact absurd (isExpression_iff.2 h) (by decide)
    | literal _ h =>
      cases h with
      | int h hn =>
        have hleast := hn.least 1 rfl
        rw [h.unique hzero] at hleast
        exact absurd hleast (by decide)

end AttributeDefinition

end ManagementScript
