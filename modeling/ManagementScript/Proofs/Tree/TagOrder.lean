import ManagementScript.Proofs.Tree.Attributes
import ManagementScript.Proofs.Tree.Declarations

/-!
Start tags whose attributes come in another order. They declare the same namespaces and carry the same
attributes, unless the order tells which of two declarations of the default namespace counts.
-/

namespace ManagementScript

namespace Xml

theorem exists_readAttributes (distinct : Bool) (steps : Nat) (found : List RawAttribute)
    (offset : Nat) (cs : List Char) :
    ∃ more, (readAttributes distinct steps found offset cs).1 = found.reverse ++ more := by
  induction steps generalizing found offset cs with
  | zero => exact ⟨[], (List.append_nil _).symm⟩
  | succ steps ih =>
    simp only [readAttributes]
    split
    · exact ⟨[], (List.append_nil _).symm⟩
    split
    · exact ⟨[], (List.append_nil _).symm⟩
    split
    · exact ⟨[], (List.append_nil _).symm⟩
    split
    · exact ⟨[], (List.append_nil _).symm⟩
    obtain ⟨more, h⟩ := ih (_ :: found) _ _
    rw [List.reverse_cons, List.append_assoc] at h
    exact ⟨_, h⟩

/-- Where attributes are read without finding one twice, they are those that are written. -/
theorem readAttributes_of_distinct {cs : List Char}
    (h : (readAttributes true steps found offset cs).2 = none) :
    readAttributes false steps found offset cs = readAttributes true steps found offset cs := by
  induction steps generalizing found offset cs with
  | zero => rfl
  | succ steps ih =>
    simp only [readAttributes, ↓reduceIte, Bool.false_eq_true] at h ⊢
    split at h
    · rfl
    split at h
    · cases h
    split at h
    · cases h
    split at h
    · cases h
    exact ih h

/-- Where no name is written twice, finding one twice does not come up. -/
theorem readAttributes_of_nodup {cs : List Char}
    (h : (readAttributes false steps found offset cs).2 = none)
    (hn : ((readAttributes false steps found offset cs).1.map RawAttribute.name).Nodup) :
    readAttributes true steps found offset cs = readAttributes false steps found offset cs := by
  induction steps generalizing found offset cs with
  | zero => rfl
  | succ steps ih =>
    simp only [readAttributes, ↓reduceIte, Bool.false_eq_true] at h hn ⊢
    split at h
    · rfl
    next first rest hfirst =>
    split at h
    · cases h
    next name valueOffset rest hname =>
    split at h
    · cases h
    next value next rest hvalue =>
    simp only [hfirst, hname, hvalue] at hn
    -- The attribute that is read next is among those that are written.
    have hnew : found.find? (·.name == name) = none := by
      obtain ⟨more, hmore⟩ := exists_readAttributes false steps (_ :: found) next rest
      rw [hmore, List.map_append, List.map_reverse, List.map_cons] at hn
      have hfresh := (List.nodup_cons.1 (List.nodup_reverse.1 (List.nodup_append.1 hn).1)).1
      refine List.find?_eq_none.2 fun b hb he => hfresh (List.mem_map.2 ⟨b, hb, ?_⟩)
      exact eq_of_beq he
    rw [hnew]
    exact ih h hn

theorem names_unplaced (attrs : List RawAttribute) :
    (attrs.map RawAttribute.unplaced).map RawAttribute.name = attrs.map RawAttribute.name := by
  rw [List.map_map]
  rfl

theorem lastDefault?_unplaced (attrs : List RawAttribute) :
    lastDefault? (attrs.map RawAttribute.unplaced) = lastDefault? attrs := by
  simp only [lastDefault?, List.filter_map, List.getLast?_map, Option.map_map]
  rfl

namespace TagText

/-- The attributes of the one tag are those of the other, in some order. -/
structure Reorders (tag tag' : TagText) : Prop where
  name : tag'.name = tag.name
  complete : (tag.attributes false).2 = none
  complete' : (tag'.attributes false).2 = none
  written : ((tag.attributes false).1.map RawAttribute.unplaced).Perm
    ((tag'.attributes false).1.map RawAttribute.unplaced)

/-- The last declarations of the default namespace have one text. -/
def SameDefault (tag tag' : TagText) : Prop :=
  lastDefault? (tag.attributes false).1 = lastDefault? (tag'.attributes false).1

theorem Reorders.symm {tag tag' : TagText} (h : tag.Reorders tag') : tag'.Reorders tag :=
  ⟨h.name.symm, h.complete', h.complete, h.written.symm⟩

/-- As far as the one tag can be read, the other one says the same. -/
structure Alike (tag tag' : TagText) : Prop where
  name : tag'.name = tag.name
  complete : (tag.attributes true).2 = none → (tag'.attributes true).2 = none
  written : (tag.attributes true).2 = none →
    ((tag.attributes true).1.map RawAttribute.unplaced).Perm
      ((tag'.attributes true).1.map RawAttribute.unplaced)
  lastDefault : (tag.attributes true).2 = none →
    lastDefault? (tag.attributes true).1 = lastDefault? (tag'.attributes true).1

theorem Alike.refl (tag : TagText) : tag.Alike tag := ⟨rfl, id, fun _ => .refl _, fun _ => rfl⟩

theorem Reorders.alike {tag tag' : TagText} (h : tag.Reorders tag') (hd : tag.SameDefault tag') :
    tag.Alike tag' := by
  have hsame (hc : (tag.attributes true).2 = none) :
      tag.attributes false = tag.attributes true ∧ tag'.attributes true = tag'.attributes false := by
    have hsame := readAttributes_of_distinct hc
    have hnodup : ((tag.attributes true).1.map RawAttribute.name).Nodup :=
      @readAttributes_distinct [] List.nodup_nil _ _ _
    have hperm := h.written.map RawAttribute.name
    rw [names_unplaced, names_unplaced] at hperm
    refine ⟨hsame, readAttributes_of_nodup h.complete' (hperm.nodup_iff.1 ?_)⟩
    rw [attributes, hsame]
    exact hnodup
  refine ⟨h.name, fun hc => ?_, fun hc => ?_, fun hc => ?_⟩
  · rw [(hsame hc).2]
    exact h.complete'
  · rw [← (hsame hc).1, (hsame hc).2]
    exact h.written
  · rw [← (hsame hc).1, (hsame hc).2]
    exact hd

end TagText

end Xml

namespace Cursor

theorem readAttribute_eq_ok {p : Position} {scope : Xml.Scope} {raw : Xml.RawAttribute} :
    readAttribute p scope raw = .ok a ↔ ∃ uri value,
      (scope.resolveAttribute raw.name).namespaceUri = .ok uri ∧
        Xml.resolveReferences raw.value = .ok value ∧
        a = ⟨uri, (scope.resolveAttribute raw.name).localName, value⟩ := by
  simp only [readAttribute, bind_eq_ok_iff, namespaceOf_eq_ok]
  cases Xml.resolveReferences raw.value with
  | error defect => simp
  | ok value => simp [eq_comm]

theorem readAttributes_eq_ok {p : Position} {tag : Xml.TagText} {scope : Xml.Scope} :
    readAttributes p tag scope = .ok attrs ↔ (tag.attributes true).2 = none ∧
      (((tag.attributes true).1.map Xml.RawAttribute.unplaced).filter (!·.isDeclaration)).mapM
        (readAttribute p scope) = .ok attrs := by
  have hplaces : (((tag.attributes true).1.map Xml.RawAttribute.unplaced).filter
      (!·.isDeclaration)).mapM (readAttribute p scope) =
        ((tag.attributes true).1.filter (!·.isDeclaration)).mapM (readAttribute p scope) := by
    rw [List.filter_map, List.mapM_map]
    rfl
  rw [hplaces, readAttributes, bind_eq_ok_iff]
  cases (tag.attributes true).2 with
  | none => simp
  | some defect => simp

/-- What a start tag says is said by every tag like it, in scopes that agree. -/
theorem readAttributes_alike {tag tag' : Xml.TagText} {scope scope' : Xml.Scope}
    (h : tag.Alike tag') (hs : scope.Agrees scope') (hr : readAttributes p tag scope = .ok attrs) :
    (∀ q, readAttributes q tag scope = .ok attrs) ∧
      ∃ attrs', (∀ q, readAttributes q tag' scope' = .ok attrs') ∧ attrs.Perm attrs' := by
  have hplace (scope : Xml.Scope) (p q : Position) (raw : Xml.RawAttribute) (a : Attribute)
      (hraw : readAttribute p scope raw = .ok a) : readAttribute q scope raw = .ok a :=
    readAttribute_eq_ok.2 (readAttribute_eq_ok.1 hraw)
  have hscope (raw : Xml.RawAttribute) (a : Attribute) (hraw : readAttribute p scope raw = .ok a) :
      readAttribute p scope' raw = .ok a := by
    rw [readAttribute_eq_ok] at hraw ⊢
    rwa [← hs.resolveAttribute]
  obtain ⟨hcomplete, hm⟩ := readAttributes_eq_ok.1 hr
  obtain ⟨attrs', hm', hperm⟩ := mapM_perm ((h.written hcomplete).filter _)
    (mapM_of_eq_ok hscope hm)
  exact ⟨fun q => readAttributes_eq_ok.2 ⟨hcomplete, mapM_of_eq_ok (hplace scope p q) hm⟩, attrs',
    fun q => readAttributes_eq_ok.2 ⟨h.complete hcomplete, mapM_of_eq_ok (hplace scope' p q) hm'⟩,
    hperm⟩

end Cursor

namespace Xml

/-- What a start tag declares is declared by every tag like it. -/
theorem Scope.declareAll_alike {tag tag' : TagText} {scope scope' : Scope} (h : tag.Alike tag')
    (hs : scope.Agrees scope') (hc : (tag.attributes true).2 = none)
    (hd : (scope.declareAll (tag.attributes false).1).2 = none) :
    (scope'.declareAll (tag'.attributes false).1).2 = none ∧
      Agrees (scope.declareAll (tag.attributes false).1).1
        (scope'.declareAll (tag'.attributes false).1).1 := by
  have hsame : tag.attributes false = tag.attributes true := readAttributes_of_distinct hc
  have hsame' : tag'.attributes false = tag'.attributes true :=
    readAttributes_of_distinct (h.complete hc)
  have hnodup : ((tag.attributes true).1.map RawAttribute.name).Nodup :=
    @readAttributes_distinct [] List.nodup_nil _ _ _
  have hlast := h.lastDefault hc
  rw [← lastDefault?_unplaced, ← lastDefault?_unplaced (tag'.attributes true).1] at hlast
  rw [hsame, ← declareAll_unplaced] at hd
  have hagrees := declareAll_agrees hs (h.written hc) (by rwa [names_unplaced]) hlast hd
  rwa [declareAll_unplaced, declareAll_unplaced, ← hsame, ← hsame'] at hagrees

end Xml

end ManagementScript
