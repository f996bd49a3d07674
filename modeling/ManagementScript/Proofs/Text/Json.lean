import Std.Data.String.ToInt
import ManagementScript.Text.Json
import ManagementScript.Text.Numeral

/-!
The texts of JSON values. Each part of a text shows where it ends, so that two values never have one
text. The indented text is the compact one with blanks between its parts.
-/

namespace ManagementScript.Json

/-! ### Strings -/

/-- The characters of a string as they are written between its quotes. -/
def escapedChars (cs : List Char) : List Char := cs.flatMap fun c => (escaped c).toList

theorem escapedChars_cons_append (c : Char) (cs rest : List Char) :
    escapedChars (c :: cs) ++ rest = (escaped c).toList ++ (escapedChars cs ++ rest) := by
  rw [escapedChars, List.flatMap_cons, List.append_assoc]
  rfl

def stringChars (value : String) : List Char := '"' :: (escapedChars value.toList ++ ['"'])

theorem toList_writeString (out value : String) :
    (writeString out value).toList = out.toList ++ stringChars value := by
  have hfold (out : String) (cs : List Char) :
      (cs.foldl (fun out c => out ++ escaped c) out).toList = out.toList ++ escapedChars cs := by
    induction cs generalizing out with
    | nil => simp [escapedChars]
    | cons c cs ih => simp [ih, escapedChars]
  simp [writeString, hfold, stringChars]

/-- Reads one character of a string, and gives what follows it. -/
def readEscaped : List Char → Option (Char × List Char)
  | '\\' :: 'n' :: rest => some ('\n', rest)
  | '\\' :: 'r' :: rest => some ('\r', rest)
  | '\\' :: 't' :: rest => some ('\t', rest)
  | '\\' :: 'b' :: rest => some ('\x08', rest)
  | '\\' :: 'f' :: rest => some ('\x0c', rest)
  | '\\' :: 'u' :: _ :: _ :: high :: low :: rest =>
    match Text.digitValue? 16 high, Text.digitValue? 16 low with
    | some high, some low => some (Char.ofNat (16 * high + low), rest)
    | _, _ => none
  | '\\' :: c :: rest => some (c, rest)
  | c :: rest => some (c, rest)
  | [] => none

theorem digitValue?_digitChar : ∀ d < 16, Text.digitValue? 16 (Nat.digitChar d) = some d := by
  decide

theorem readEscaped_of_ne {c : Char} (hc : c ≠ '\\') (rest : List Char) :
    readEscaped (c :: rest) = some (c, rest) := by
  rw [readEscaped.eq_def]
  split <;> simp_all

theorem readEscaped_escaped (c : Char) (rest : List Char) :
    readEscaped ((escaped c).toList ++ rest) = some (c, rest) := by
  unfold escaped
  split
  case h_8 =>
    split
    · next hlt =>
      have hhigh := digitValue?_digitChar (c.toNat / 16) (by omega)
      have hlow := digitValue?_digitChar (c.toNat % 16) (by omega)
      have hread : readEscaped ('\\' :: 'u' :: '0' :: '0' :: Nat.digitChar (c.toNat / 16) ::
          Nat.digitChar (c.toNat % 16) :: rest) = some (c, rest) := by
        simp only [readEscaped, hhigh, hlow, Nat.div_add_mod, Char.ofNat_toNat]
      simpa using hread
    · next _ hslash _ _ _ _ _ _ => simpa using readEscaped_of_ne hslash rest
  all_goals rfl

theorem escaped_append_inj {c d : Char} (h : (escaped c).toList ++ rest = (escaped d).toList ++ rest') :
    c = d ∧ rest = rest' := by
  have hread := congrArg readEscaped h
  simpa [readEscaped_escaped] using hread

/-- No character is written as a quote. -/
theorem escaped_append_ne_quote (c : Char) (cs rest : List Char) :
    (escaped c).toList ++ cs ≠ '"' :: rest := by
  intro h
  have hread := congrArg readEscaped h
  rw [readEscaped_escaped, readEscaped_of_ne (by decide)] at hread
  cases hread
  cases h

theorem escapedChars_append_inj {cs ds : List Char}
    (h : escapedChars cs ++ '"' :: rest = escapedChars ds ++ '"' :: rest') : cs = ds ∧ rest = rest' := by
  induction cs generalizing ds with
  | nil =>
    cases ds with
    | nil => exact ⟨rfl, (List.cons.inj h).2⟩
    | cons d ds =>
      rw [escapedChars_cons_append] at h
      exact absurd h.symm (escaped_append_ne_quote d _ _)
  | cons c cs ih =>
    rw [escapedChars_cons_append] at h
    cases ds with
    | nil => exact absurd h (escaped_append_ne_quote c _ _)
    | cons d ds =>
      rw [escapedChars_cons_append] at h
      obtain ⟨rfl, htail⟩ := escaped_append_inj h
      obtain ⟨rfl, hrest⟩ := ih htail
      exact ⟨rfl, hrest⟩

theorem stringChars_append_inj {value value' : String}
    (h : stringChars value ++ rest = stringChars value' ++ rest') : value = value' ∧ rest = rest' := by
  simp only [stringChars, List.cons_append, List.append_assoc, List.nil_append, List.cons.injEq,
    true_and] at h
  obtain ⟨he, hrest⟩ := escapedChars_append_inj h
  exact ⟨String.toList_inj.1 he, hrest⟩

/-! ### The compact text -/

mutual

/-- The characters of a value without blanks. -/
def chars : Json → List Char
  | .null => "null".toList
  | .boolean value => (if value then "true" else "false").toList
  | .number value => (toString value).toList
  | .string value => stringChars value
  | .array items => '[' :: (itemsChars true items ++ [']'])
  | .object fields => '\x7b' :: (fieldsChars true fields ++ ['\x7d'])

def itemsChars (first : Bool) : List Json → List Char
  | [] => []
  | item :: items => (if first then [] else [',']) ++ item.chars ++ itemsChars false items

def fieldsChars (first : Bool) : List (String × Json) → List Char
  | [] => []
  | (name, value) :: fields =>
    (if first then [] else [',']) ++ stringChars name ++ ':' :: value.chars ++
      fieldsChars false fields

end

mutual

theorem toList_writeCompact (out : String) : ∀ value : Json,
    (value.writeCompact out).toList = out.toList ++ value.chars
  | .null | .boolean _ | .number _ => by simp [writeCompact, chars]
  | .string value => by simp [writeCompact, chars, toList_writeString]
  | .array items => by simp [writeCompact, chars, toList_writeItems]
  | .object fields => by simp [writeCompact, chars, toList_writeFields]

theorem toList_writeItems (out : String) (first : Bool) : ∀ items : List Json,
    (writeItems out first items).toList = out.toList ++ itemsChars first items
  | [] => by simp [writeItems, itemsChars]
  | item :: items => by
    rw [writeItems, toList_writeItems, toList_writeCompact, itemsChars]
    cases first <;> simp

theorem toList_writeFields (out : String) (first : Bool) : ∀ fields : List (String × Json),
    (writeFields out first fields).toList = out.toList ++ fieldsChars first fields
  | [] => by simp [writeFields, fieldsChars]
  | (name, value) :: fields => by
    rw [writeFields, toList_writeFields, toList_writeCompact, fieldsChars, String.toList_push,
      toList_writeString]
    cases first <;> simp

end

theorem toList_compact (value : Json) : value.compact.toList = value.chars := by
  rw [compact, toList_writeCompact]
  rfl

/-! ### Compact texts are different -/

/-- The characters of numbers. -/
def isNumeric (c : Char) : Bool := c == '-' || c.isDigit

theorem toList_toString_int (n : Int) :
    (toString n).toList ≠ [] ∧ ∀ c ∈ (toString n).toList, isNumeric c = true := by
  have hdigits (m : Nat) : m.repr.toList ≠ [] ∧ ∀ c ∈ m.repr.toList, isNumeric c = true := by
    rw [Nat.repr, String.toList_ofList]
    refine ⟨Nat.toDigits_ne_nil, fun c hc => ?_⟩
    rw [isNumeric, Nat.isDigit_of_mem_toDigits (by decide) (by decide) hc, Bool.or_true]
  cases n with
  | ofNat m => exact hdigits m
  | negSucc m =>
    have hrepr : (toString (Int.negSucc m)).toList = '-' :: m.succ.repr.toList := by
      have happend : toString (Int.negSucc m) = "-" ++ m.succ.repr := rfl
      rw [happend, String.toList_append]
      rfl
    rw [hrepr]
    exact ⟨List.cons_ne_nil _ _, List.forall_mem_cons.2 ⟨rfl, (hdigits _).2⟩⟩

/-- Nothing follows with which a number would go on. -/
def Delimited (rest : List Char) : Prop := ∀ c ∈ rest.head?, isNumeric c = false

theorem delimited_cons {c : Char} (hc : isNumeric c = false) (rest : List Char) :
    Delimited (c :: rest) := by
  intro c' h
  cases h
  exact hc

theorem toString_int_append_inj {n m : Int} (hr : Delimited rest) (hr' : Delimited rest')
    (h : (toString n).toList ++ rest = (toString m).toList ++ rest') : n = m ∧ rest = rest' := by
  have htaken (n : Int) {rest : List Char} (hr : Delimited rest) :
      ((toString n).toList ++ rest).takeWhile isNumeric = (toString n).toList := by
    rw [List.takeWhile_append_of_pos (toList_toString_int n).2]
    cases rest with
    | nil => simp
    | cons c rest => simp [hr c rfl]
  have hsame : (toString n).toList = (toString m).toList := by
    rw [← htaken n hr, h, htaken m hr']
  exact ⟨Int.repr_injective (String.toList_inj.1 hsame), List.append_cancel_left (hsame ▸ h)⟩

/-- The kinds of values that a text can begin with. -/
inductive Shape where
  | null
  | boolean
  | number
  | string
  | array
  | object

def shape : Json → Shape
  | .null => .null
  | .boolean _ => .boolean
  | .number _ => .number
  | .string _ => .string
  | .array _ => .array
  | .object _ => .object

/-- The kind of the values whose texts begin with a character. -/
def shapeOf? (c : Char) : Option Shape :=
  if isNumeric c then some .number
  else
    match c with
    | 'n' => some .null
    | 't' | 'f' => some .boolean
    | '"' => some .string
    | '[' => some .array
    | '\x7b' => some .object
    | _ => none

/-- The first character of a text tells the kind of the value. -/
theorem exists_chars_eq (value : Json) :
    ∃ c tail, value.chars = c :: tail ∧ shapeOf? c = some value.shape := by
  cases value with
  | null => exact ⟨'n', _, rfl, rfl⟩
  | boolean value =>
    cases value with
    | true => exact ⟨'t', _, rfl, rfl⟩
    | false => exact ⟨'f', _, rfl, rfl⟩
  | number n =>
    obtain ⟨hne, hnumeric⟩ := toList_toString_int n
    obtain ⟨c, tail, hn⟩ := List.exists_cons_of_ne_nil hne
    refine ⟨c, tail, hn, ?_⟩
    simp only [shapeOf?, hnumeric c (hn ▸ List.mem_cons_self ..), ↓reduceIte, shape]
  | string value => exact ⟨'"', _, rfl, rfl⟩
  | array items => exact ⟨'[', _, rfl, rfl⟩
  | object fields => exact ⟨'\x7b', _, rfl, rfl⟩

theorem shape_eq_of_chars {v w : Json} (h : v.chars ++ rest = w.chars ++ rest') :
    v.shape = w.shape := by
  obtain ⟨c, tail, hv, hc⟩ := v.exists_chars_eq
  obtain ⟨d, tail', hw, hd⟩ := w.exists_chars_eq
  rw [hv, hw] at h
  obtain rfl : c = d := (List.cons.inj h).1
  exact Option.some.inj (hc.symm.trans hd)

theorem chars_append_ne_cons {c : Char} (hc : shapeOf? c = none) (v : Json) (cs rest : List Char) :
    v.chars ++ cs ≠ c :: rest := by
  obtain ⟨d, tail, hv, hd⟩ := v.exists_chars_eq
  rw [hv]
  intro h
  rw [(List.cons.inj h).1, hc] at hd
  cases hd

theorem itemsChars_ne_end (item : Json) (items : List Json) {cs rest : List Char} :
    itemsChars first (item :: items) ++ cs ≠ ']' :: rest := by
  cases first with
  | true =>
    simp only [itemsChars, ↓reduceIte, List.nil_append, List.append_assoc]
    exact chars_append_ne_cons (by decide) item _ _
  | false => simp [itemsChars]

theorem fieldsChars_ne_end (field : String × Json) (fields : List (String × Json))
    {cs rest : List Char} : fieldsChars first (field :: fields) ++ cs ≠ '\x7d' :: rest := by
  cases first <;> simp [fieldsChars, stringChars]

theorem delimited_itemsChars (items : List Json) (rest : List Char) :
    Delimited (itemsChars false items ++ ']' :: rest) := by
  cases items with
  | nil => exact delimited_cons (by decide) _
  | cons item items => exact delimited_cons (by decide) _

theorem delimited_fieldsChars (fields : List (String × Json)) (rest : List Char) :
    Delimited (fieldsChars false fields ++ '\x7d' :: rest) := by
  cases fields with
  | nil => exact delimited_cons (by decide) _
  | cons field fields => exact delimited_cons (by decide) _

mutual

/-- Where one text of a value ends and what the value is does not depend on what follows. -/
theorem chars_append_inj : ∀ {v w : Json}, Delimited rest → Delimited rest' →
    v.chars ++ rest = w.chars ++ rest' → v = w ∧ rest = rest'
  | .null, w, _, _, h => by
    cases w with
    | null => exact ⟨rfl, List.append_cancel_left h⟩
    | _ => cases shape_eq_of_chars h
  | .boolean b, w, _, _, h => by
    cases w with
    | boolean b' =>
      cases b <;> cases b'
      · exact ⟨rfl, List.append_cancel_left h⟩
      · simp [chars] at h
      · simp [chars] at h
      · exact ⟨rfl, List.append_cancel_left h⟩
    | _ => cases shape_eq_of_chars h
  | .number n, w, hr, hr', h => by
    cases w with
    | number m =>
      obtain ⟨rfl, hrest⟩ := toString_int_append_inj hr hr' h
      exact ⟨rfl, hrest⟩
    | _ => cases shape_eq_of_chars h
  | .string s, w, _, _, h => by
    cases w with
    | string t =>
      obtain ⟨rfl, hrest⟩ := stringChars_append_inj h
      exact ⟨rfl, hrest⟩
    | _ => cases shape_eq_of_chars h
  | .array xs, w, _, _, h => by
    cases w with
    | array ys =>
      simp only [chars, List.cons_append, List.append_assoc, List.nil_append, List.cons.injEq,
        true_and] at h
      obtain ⟨rfl, hrest⟩ := itemsChars_append_inj h
      exact ⟨rfl, hrest⟩
    | _ => cases shape_eq_of_chars h
  | .object xs, w, _, _, h => by
    cases w with
    | object ys =>
      simp only [chars, List.cons_append, List.append_assoc, List.nil_append, List.cons.injEq,
        true_and] at h
      obtain ⟨rfl, hrest⟩ := fieldsChars_append_inj h
      exact ⟨rfl, hrest⟩
    | _ => cases shape_eq_of_chars h

theorem itemsChars_append_inj : ∀ {xs ys : List Json},
    itemsChars first xs ++ ']' :: rest = itemsChars first ys ++ ']' :: rest' → xs = ys ∧ rest = rest'
  | [], [], h => ⟨rfl, (List.cons.inj h).2⟩
  | [], y :: ys, h => (itemsChars_ne_end y ys h.symm).elim
  | x :: xs, [], h => (itemsChars_ne_end x xs h).elim
  | x :: xs, y :: ys, h => by
    simp only [itemsChars, List.append_assoc, List.append_cancel_left_eq] at h
    obtain ⟨rfl, htail⟩ := chars_append_inj (delimited_itemsChars xs _) (delimited_itemsChars ys _) h
    obtain ⟨rfl, hrest⟩ := itemsChars_append_inj htail
    exact ⟨rfl, hrest⟩

theorem fieldsChars_append_inj : ∀ {xs ys : List (String × Json)},
    fieldsChars first xs ++ '\x7d' :: rest = fieldsChars first ys ++ '\x7d' :: rest' →
      xs = ys ∧ rest = rest'
  | [], [], h => ⟨rfl, (List.cons.inj h).2⟩
  | [], y :: ys, h => (fieldsChars_ne_end y ys h.symm).elim
  | x :: xs, [], h => (fieldsChars_ne_end x xs h).elim
  | (name, x) :: xs, (name', y) :: ys, h => by
    simp only [fieldsChars, List.append_assoc, List.append_cancel_left_eq, List.cons_append] at h
    obtain ⟨rfl, hvalue⟩ := stringChars_append_inj h
    obtain ⟨rfl, htail⟩ := chars_append_inj (delimited_fieldsChars xs _) (delimited_fieldsChars ys _)
      (List.cons.inj hvalue).2
    obtain ⟨rfl, hrest⟩ := fieldsChars_append_inj htail
    exact ⟨rfl, hrest⟩

end

/-- No two values have one text. -/
theorem chars_injective {v w : Json} (h : v.chars = w.chars) : v = w := by
  have hnil : Delimited [] := nofun
  rw [← List.append_nil v.chars, ← List.append_nil w.chars] at h
  exact (chars_append_inj hnil hnil h).1

theorem compact_injective {v w : Json} (h : v.compact = w.compact) : v = w :=
  chars_injective (by rw [← toList_compact, h, toList_compact])

/-! ### The indented text -/

/-- Where the characters of a text stand: outside of strings, in a string, or behind a backslash
there. -/
inductive Place where
  | outside
  | inside
  | escape

/-- A text without the blanks that stand outside of strings. -/
def unspaced : Place → List Char → List Char
  | _, [] => []
  | .outside, c :: cs =>
    if c = ' ' ∨ c = '\n' then unspaced .outside cs
    else c :: unspaced (if c = '"' then .inside else .outside) cs
  | .inside, c :: cs =>
    c :: unspaced (if c = '"' then .outside else if c = '\\' then .escape else .inside) cs
  | .escape, c :: cs => c :: unspaced .inside cs

theorem unspaced_plain {cs : List Char} (h : ∀ c ∈ cs, c ≠ ' ' ∧ c ≠ '\n' ∧ c ≠ '"')
    (rest : List Char) : unspaced .outside (cs ++ rest) = cs ++ unspaced .outside rest := by
  induction cs with
  | nil => rfl
  | cons c cs ih =>
    obtain ⟨⟨hspace, hline, hquote⟩, hcs⟩ := List.forall_mem_cons.1 h
    simp [unspaced, hspace, hline, hquote, ih hcs]

theorem digitChar_plain : ∀ d < 16, Nat.digitChar d ≠ '"' ∧ Nat.digitChar d ≠ '\\' := by decide

theorem unspaced_escaped (c : Char) (rest : List Char) :
    unspaced .inside ((escaped c).toList ++ rest) = (escaped c).toList ++ unspaced .inside rest := by
  unfold escaped
  split
  case h_8 =>
    split
    · next hlt =>
      obtain ⟨hquote, hslash⟩ := digitChar_plain (c.toNat / 16) (by omega)
      obtain ⟨hquote', hslash'⟩ := digitChar_plain (c.toNat % 16) (by omega)
      simp [unspaced, hquote, hslash, hquote', hslash']
    · next _ hquote hslash _ _ _ _ _ _ =>
      rw [Char.toString_eq_singleton, String.toList_singleton, List.singleton_append, unspaced,
        if_neg hquote, if_neg hslash]
      rfl
  all_goals simp [unspaced]

theorem unspaced_stringChars (value : String) (rest : List Char) :
    unspaced .outside (stringChars value ++ rest) = stringChars value ++ unspaced .outside rest := by
  have hinside (cs : List Char) : unspaced .inside (escapedChars cs ++ '"' :: rest) =
      escapedChars cs ++ '"' :: unspaced .outside rest := by
    induction cs with
    | nil => simp [escapedChars, unspaced]
    | cons c cs ih =>
      rw [escapedChars_cons_append, unspaced_escaped, ih, escapedChars_cons_append]
  simp [stringChars, unspaced, hinside]

/-- Behind `out` is written `cs`, with blanks between that do not stand in strings. -/
def Spaces (out out' : String) (cs : List Char) : Prop :=
  ∃ written, out'.toList = out.toList ++ written ∧
    ∀ rest, unspaced .outside (written ++ rest) = cs ++ unspaced .outside rest

namespace Spaces

theorem trans (h : Spaces out out' cs) (h' : Spaces out' out'' cs') :
    Spaces out out'' (cs ++ cs') := by
  obtain ⟨written, hout, hw⟩ := h
  obtain ⟨written', hout', hw'⟩ := h'
  refine ⟨written ++ written', by rw [hout', hout, List.append_assoc], fun rest => ?_⟩
  rw [List.append_assoc, hw, hw', List.append_assoc]

theorem append (out : String) {text : String}
    (h : ∀ c ∈ text.toList, c ≠ ' ' ∧ c ≠ '\n' ∧ c ≠ '"') : Spaces out (out ++ text) text.toList :=
  ⟨text.toList, String.toList_append, unspaced_plain h⟩

theorem push (out : String) {c : Char} (h : c ≠ ' ' ∧ c ≠ '\n' ∧ c ≠ '"') :
    Spaces out (out.push c) [c] :=
  ⟨[c], String.toList_push c, unspaced_plain (List.forall_mem_singleton.2 h)⟩

theorem writeString (out value : String) : Spaces out (Json.writeString out value) (stringChars value) :=
  ⟨stringChars value, toList_writeString out value, unspaced_stringChars value⟩

theorem newLine (out : String) (level : Nat) : Spaces out (Json.newLine out level) [] := by
  have hfold (out : String) (cs : List Char) : (cs.foldl String.push out).toList = out.toList ++ cs := by
    induction cs generalizing out with
    | nil => simp
    | cons c cs ih => simp [ih]
  have hspaces (n : Nat) (rest : List Char) :
      unspaced .outside (List.replicate n ' ' ++ rest) = unspaced .outside rest := by
    induction n with
    | zero => rfl
    | succ n ih => simpa [List.replicate_succ, unspaced] using ih
  refine ⟨'\n' :: List.replicate (2 * level) ' ', by simp [Json.newLine, hfold], fun rest => ?_⟩
  simpa [unspaced] using hspaces (2 * level) rest

theorem colon (out : String) : Spaces out (out ++ ": ") [':'] :=
  ⟨[':', ' '], String.toList_append, fun rest => by simp [unspaced]⟩

end Spaces

theorem isNumeric_plain {c : Char} (h : isNumeric c = true) : c ≠ ' ' ∧ c ≠ '\n' ∧ c ≠ '"' := by
  refine ⟨?_, ?_, ?_⟩
  all_goals
    rintro rfl
    cases h

mutual

/-- The indented text is the compact one, but for blanks. -/
theorem spaces_writeIndented (level : Nat) (out : String) : ∀ value : Json,
    Spaces out (value.writeIndented level out) value.chars
  | .null => .append out (by simp)
  | .boolean b => by
    cases b with
    | true => exact .append out (by simp)
    | false => exact .append out (by simp)
  | .number n => .append out fun c hc => isNumeric_plain ((toList_toString_int n).2 c hc)
  | .string value => .writeString out value
  | .array [] => .append out (by simp)
  | .array (item :: items) => by
    have hfirst := ((Spaces.push out (c := '[') (by decide)).trans (.newLine _ (level + 1))).trans
      (spaces_writeIndented (level + 1) _ item)
    have hend := ((hfirst.trans (spaces_writeIndentedItems (level + 1) _ items)).trans
      (.newLine _ level)).trans (.push _ (c := ']') (by decide))
    simpa [writeIndented, chars, itemsChars] using hend
  | .object [] => .append out (by simp)
  | .object ((name, value) :: fields) => by
    have hname := (((Spaces.push out (c := '\x7b') (by decide)).trans (.newLine _ (level + 1))).trans
      (.writeString _ name)).trans (.colon _)
    have hfirst := hname.trans (spaces_writeIndented (level + 1) _ value)
    have hend := ((hfirst.trans (spaces_writeIndentedFields (level + 1) _ fields)).trans
      (.newLine _ level)).trans (.push _ (c := '\x7d') (by decide))
    simpa [writeIndented, chars, fieldsChars] using hend

theorem spaces_writeIndentedItems (level : Nat) (out : String) : ∀ items : List Json,
    Spaces out (writeIndentedItems level out items) (itemsChars false items)
  | [] => ⟨[], by simp [writeIndentedItems], fun _ => rfl⟩
  | item :: items => by
    have hitem := ((Spaces.push out (c := ',') (by decide)).trans (.newLine _ level)).trans
      (spaces_writeIndented level _ item)
    simpa [writeIndentedItems, itemsChars] using hitem.trans (spaces_writeIndentedItems level _ items)

theorem spaces_writeIndentedFields (level : Nat) (out : String) : ∀ fields : List (String × Json),
    Spaces out (writeIndentedFields level out fields) (fieldsChars false fields)
  | [] => ⟨[], by simp [writeIndentedFields], fun _ => rfl⟩
  | (name, value) :: fields => by
    have hname := (((Spaces.push out (c := ',') (by decide)).trans (.newLine _ level)).trans
      (.writeString _ name)).trans (.colon _)
    have hfield := hname.trans (spaces_writeIndented level _ value)
    simpa [writeIndentedFields, fieldsChars] using hfield.trans (spaces_writeIndentedFields level _ fields)

end

/-- The two layouts differ in blanks outside of strings only. -/
theorem unspaced_indented (value : Json) :
    unspaced .outside value.indented.toList = value.compact.toList := by
  obtain ⟨written, hout, hw⟩ := spaces_writeIndented 0 "" value
  have hindented : value.indented.toList = written := hout
  have hall := hw []
  rw [List.append_nil] at hall
  rw [hindented, hall, toList_compact]
  exact List.append_nil _

theorem indented_injective {v w : Json} (h : v.indented = w.indented) : v = w := by
  apply compact_injective
  rw [← String.toList_inj, ← unspaced_indented, h, unspaced_indented]

end ManagementScript.Json
