import Mathlib.Data.List.Nodup
import Mathlib.Data.List.TakeDrop
import ManagementScript.Proofs.Result
import ManagementScript.Proofs.Tree.Reading

/-!
No start tag carries an attribute twice: the attributes that a cursor reads differ in their names, as
far as these are in no namespace.
-/

namespace ManagementScript

namespace Xml

theorem readAttributes_distinct (h : (found.map RawAttribute.name).Nodup) (steps offset : Nat)
    (cs : List Char) :
    ((readAttributes true steps found offset cs).1.map RawAttribute.name).Nodup := by
  induction steps generalizing found offset cs with
  | zero =>
    rw [readAttributes, List.map_reverse]
    exact List.nodup_reverse.2 h
  | succ steps ih =>
    have hr : (found.reverse.map RawAttribute.name).Nodup := by
      rw [List.map_reverse]
      exact List.nodup_reverse.2 h
    simp only [readAttributes, ↓reduceIte]
    split
    · exact hr
    split
    · exact hr
    split
    · exact hr
    next hnew =>
    split
    · exact hr
    apply ih
    refine List.nodup_cons.2 ⟨fun hmem => ?_, h⟩
    obtain ⟨a, ha, he⟩ := List.mem_map.1 hmem
    have hne := List.find?_eq_none.1 hnew a ha
    simp [he] at hne

/-- A name that is in no namespace has no prefix. -/
theorem Scope.resolve_unlabelled {scope : Scope} {name : List Char}
    (h : (scope.resolve none name).namespaceUri = .ok none) :
    (scope.resolve none name).localName = String.ofList name := by
  simp only [resolve, List.span_eq_takeWhile_dropWhile] at h ⊢
  cases hd : name.dropWhile (· != ':') with
  | nil =>
    have ht := List.takeWhile_append_dropWhile (p := (· != ':')) (l := name)
    rw [hd, List.append_nil] at ht
    rw [ht]
  | cons c cs =>
    simp only [hd, resolveLabel] at h
    split at h
    · split at h <;> cases h
    · cases h

end Xml

namespace Cursor

/-- No two attributes of the tag that the cursor is on have one name, those in a namespace apart. -/
def Distinct (c : Cursor) : Prop :=
  c.attributes.Pairwise fun a b =>
    a.namespaceUri = none → b.namespaceUri = none → a.localName ≠ b.localName

theorem namespaceOf_eq_ok {p : Position} {name : Xml.ResolvedName} :
    namespaceOf p name = .ok uri ↔ name.namespaceUri = .ok uri := by
  rw [namespaceOf]
  cases name.namespaceUri with
  | error label => simp [Except.mapError]
  | ok found => simp [Except.mapError]

theorem readAttribute_unlabelled {p : Position} (h : readAttribute p scope raw = .ok a)
    (hn : a.namespaceUri = none) : a.localName = String.ofList raw.name := by
  simp only [readAttribute] at h
  obtain ⟨uri, huri, h⟩ := bind_eq_ok_iff.1 h
  split at h
  · cases h
  cases h
  simp only at hn
  subst hn
  apply Xml.Scope.resolve_unlabelled
  exact namespaceOf_eq_ok.1 huri

theorem distinct_of_openElement {c i : Cursor} (h : c.openElement offset name tag scope = .ok i) :
    i.Distinct := by
  have hr := (openElement_reads h).2
  simp only [readAttributes] at hr
  obtain ⟨attributes, hm, hr⟩ := bind_eq_ok_iff.1 hr
  have he : attributes = i.attributes := by
    split at hr
    · cases hr
    · cases hr
      rfl
  rw [Distinct, ← he]
  have hraw := @Xml.readAttributes_distinct [] List.nodup_nil tag.tail.length
    (Text.byteCount tag.name) tag.tail
  have hpair := (List.pairwise_map.1 hraw).filter fun a => !a.isDeclaration
  refine pairwise_of_mapM (fun a a' b b' hne hb hb' hn hn' he => hne ?_) hm hpair
  rw [readAttribute_unlabelled hb hn, readAttribute_unlabelled hb' hn'] at he
  simpa using congrArg String.toList he

theorem distinct_of_next {c i : Cursor} (h : c.next = (.ok .start, i)) : i.Distinct := by
  obtain ⟨_, s, _, hstop, _, _⟩ := next_stops h (by simp)
  cases hstop with
  | start _ hi => exact distinct_of_openElement hi

theorem distinct_of_attributes_eq_nil {c : Cursor} (h : c.attributes = []) : c.Distinct := by
  rw [Distinct, h]
  exact .nil

theorem Spans.distinct {c d : Cursor} (h : c.Spans e d) (ha : e.attributes = []) : c.Distinct := by
  apply distinct_of_attributes_eq_nil
  rw [h.start] at ha
  exact ha

end Cursor

end ManagementScript
