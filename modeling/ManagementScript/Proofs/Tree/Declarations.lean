import Mathlib.Data.List.Find
import Mathlib.Data.List.Nodup
import Mathlib.Data.List.Perm.Basic
import ManagementScript.Proofs.Result
import ManagementScript.Xml.Scope

/-!
Namespace declarations that come in another order. A prefix has one declaration in a tag; only the
default namespace can be declared twice there, without a prefix and with an empty one, and then the
last declaration counts.
-/

namespace ManagementScript.Xml

namespace RawAttribute

/-- The attribute without its place. -/
def unplaced (a : RawAttribute) : RawAttribute := { a with offset := 0 }

/-- The attribute declares the default namespace. -/
def declaresDefault (a : RawAttribute) : Bool :=
  declaredLabel? a.name == some none || declaredLabel? a.name == some (some [])

end RawAttribute

/-- The text of the last attribute that declares the default namespace. -/
def lastDefault? (attrs : List RawAttribute) : Option (List Char) :=
  (attrs.filter (·.declaresDefault)).getLast?.map (·.value)

theorem lastDefault?_cons (a : RawAttribute) (attrs : List RawAttribute) :
    lastDefault? (a :: attrs) =
      (lastDefault? attrs).or (if a.declaresDefault then some a.value else none) := by
  rw [lastDefault?, lastDefault?, List.filter_cons]
  split
  · cases hrest : attrs.filter (·.declaresDefault) with
    | nil => rfl
    | cons b bs => rw [List.getLast?_cons_cons, List.getLast?_eq_some_getLast (List.cons_ne_nil b bs)]; rfl
  · rw [Option.or_none]

namespace Scope

/-- The scopes give every prefix the same namespace. -/
def Agrees (scope scope' : Scope) : Prop :=
  ∀ label, scope.find? (·.label == label) = scope'.find? (·.label == label)

theorem Agrees.append {scope scope' around around' : Scope} (h : scope.Agrees scope')
    (ha : around.Agrees around') : Agrees (scope ++ around) (scope' ++ around') := by
  intro label
  rw [List.find?_append, List.find?_append, h label, ha label]

theorem Agrees.resolve {scope scope' : Scope} (h : scope.Agrees scope')
    (unlabelled : Option String) (name : List Char) :
    scope.resolve unlabelled name = scope'.resolve unlabelled name := by
  have hlabel (label : List Char) : scope.resolveLabel label = scope'.resolveLabel label := by
    rw [resolveLabel, resolveLabel, h]
  simp only [Scope.resolve, hlabel]

theorem Agrees.resolveElement {scope scope' : Scope} (h : scope.Agrees scope')
    (name : List Char) : scope.resolveElement name = scope'.resolveElement name := by
  rw [Scope.resolveElement, Scope.resolveElement, h.resolve, default?, default?, h]

theorem Agrees.resolveAttribute {scope scope' : Scope} (h : scope.Agrees scope')
    (name : List Char) : scope.resolveAttribute name = scope'.resolveAttribute name :=
  h.resolve none name

theorem declare_append (scope around : Scope) (a : RawAttribute) :
    declare (scope ++ around) a = (scope.declare a).map (· ++ around) := by
  simp only [declare]
  split
  · rfl
  · rfl
  · split
    · split <;> rfl
    · split <;> rfl

/-- Whether declarations are ruled out does not depend on those around them. -/
theorem declareAll_append (scope around : Scope) (attrs : List RawAttribute) :
    declareAll (scope ++ around) attrs =
      ((scope.declareAll attrs).1 ++ around, (scope.declareAll attrs).2) := by
  induction attrs generalizing scope with
  | nil => rfl
  | cons a attrs ih =>
    simp only [declareAll, declare_append]
    cases scope.declare a with
    | error defect => rfl
    | ok scope => exact ih scope

theorem declareAll_unplaced (scope : Scope) (attrs : List RawAttribute) :
    scope.declareAll (attrs.map RawAttribute.unplaced) = scope.declareAll attrs := by
  induction attrs generalizing scope with
  | nil => rfl
  | cons a attrs ih =>
    have ha : scope.declare a.unplaced = scope.declare a := rfl
    rw [List.map_cons, declareAll, declareAll, ha]
    cases scope.declare a with
    | error defect => rfl
    | ok scope => exact ih scope

/-- What one attribute adds to the declarations. -/
def declared (a : RawAttribute) : Except BindingDefect Scope := declare [] a

theorem declare_eq (scope : Scope) (a : RawAttribute) :
    scope.declare a = (declared a).map (· ++ scope) :=
  declare_append [] scope a

theorem declareAll_eq_none_iff {scope : Scope} {attrs : List RawAttribute} :
    (scope.declareAll attrs).2 = none ↔ ∀ a ∈ attrs, ∃ bindings, declared a = .ok bindings := by
  induction attrs generalizing scope with
  | nil => simp [declareAll]
  | cons a attrs ih =>
    rw [declareAll, declare_eq, List.forall_mem_cons]
    cases declared a with
    | error defect => simp [Except.map]
    | ok bindings => simpa [Except.map] using ih

/-- The declarations of attributes, in whatever order they count. -/
theorem declareAll_perm {scope : Scope} {attrs : List RawAttribute}
    (h : (scope.declareAll attrs).2 = none) : (scope.declareAll attrs).1.Perm
      (attrs.flatMap (fun a => (declared a).toOption.getD []) ++ scope) := by
  induction attrs generalizing scope with
  | nil => exact .refl _
  | cons a attrs ih =>
    rw [declareAll, declare_eq] at h ⊢
    rw [List.flatMap_cons]
    cases ha : declared a with
    | error defect =>
      rw [ha] at h
      cases h
    | ok bindings =>
      rw [ha] at h
      refine (ih h).trans ?_
      rw [← List.append_assoc]
      exact List.perm_append_comm.append_right scope

/-- An attribute declares nothing, the default namespace or a prefix. -/
theorem declared_eq_ok {a : RawAttribute} (h : declared a = .ok bindings) :
    bindings = [] ∧ a.declaresDefault = false ∨
      bindings = [⟨none, a.value⟩] ∧ a.declaresDefault = true ∨
      ∃ label, bindings = [⟨some label, a.value⟩] ∧ declaredLabel? a.name = some (some label) ∧
        a.declaresDefault = false := by
  simp only [declared, declare, RawAttribute.declaresDefault] at h ⊢
  split at h
  · next hname =>
    cases h
    exact .inl ⟨rfl, by rw [hname]; rfl⟩
  · next hname =>
    cases h
    exact .inr (.inl ⟨rfl, by rw [hname]; rfl⟩)
  · next label hname =>
    have hdefault : (declaredLabel? a.name == some none || declaredLabel? a.name == some (some [])) =
        label.isEmpty := by
      rw [hname]
      cases label <;> rfl
    rw [hdefault]
    split at h
    · next hxml =>
      split at h
      · cases h
        exact .inl ⟨rfl, by rw [eq_of_beq hxml]; rfl⟩
      · cases h
    split at h
    · cases h
    cases h
    cases label with
    | nil => exact .inr (.inl ⟨rfl, rfl⟩)
    | cons c cs => exact .inr (.inr ⟨_, rfl, hname, rfl⟩)

theorem find?_default_declareAll {scope : Scope} {attrs : List RawAttribute}
    (h : (scope.declareAll attrs).2 = none) :
    (scope.declareAll attrs).1.find? (·.label == none) =
      ((lastDefault? attrs).map (⟨none, ·⟩)).or (scope.find? (·.label == none)) := by
  induction attrs generalizing scope with
  | nil => rfl
  | cons a attrs ih =>
    rw [declareAll, declare_eq] at h ⊢
    rw [lastDefault?_cons]
    cases ha : declared a with
    | error defect =>
      rw [ha] at h
      cases h
    | ok bindings =>
      rw [ha] at h
      refine (ih h).trans ?_
      rcases declared_eq_ok ha with ⟨rfl, hd⟩ | ⟨rfl, hd⟩ | ⟨label, rfl, _, hd⟩
      · simp [hd]
      · cases lastDefault? attrs <;> simp [hd]
      · simp [hd]

theorem name_of_declaredLabel? {name : List Char} (h : declaredLabel? name = some (some label)) :
    name = "xmlns:".toList ++ label := by
  simp only [declaredLabel?] at h
  split at h <;> cases h
  rfl

/-- A declaration of a prefix is that of an attribute whose name tells the prefix. -/
theorem exists_of_mem_declareAll {attrs : List RawAttribute} (h : (declareAll [] attrs).2 = none)
    (hb : b ∈ (declareAll [] attrs).1) (hlabel : b.label = some label) :
    ∃ a ∈ attrs, b = ⟨some label, a.value⟩ ∧ a.name = "xmlns:".toList ++ label := by
  have hmem := (declareAll_perm h).mem_iff.1 hb
  rw [List.append_nil] at hmem
  obtain ⟨a, ha, hmem⟩ := List.mem_flatMap.1 hmem
  obtain ⟨bindings, hdeclared⟩ := declareAll_eq_none_iff.1 h a ha
  refine ⟨a, ha, ?_⟩
  rw [hdeclared] at hmem
  rcases declared_eq_ok hdeclared with ⟨rfl, _⟩ | ⟨rfl, _⟩ | ⟨label', rfl, hname, _⟩
  · cases hmem
  · rw [List.mem_singleton.1 hmem] at hlabel
    cases hlabel
  · rw [List.mem_singleton.1 hmem] at hlabel ⊢
    cases hlabel
    exact ⟨rfl, name_of_declaredLabel? hname⟩

/-- Declarations that differ in their order only. -/
theorem declareAll_agrees {scope scope' : Scope} {attrs attrs' : List RawAttribute}
    (hs : scope.Agrees scope') (hp : attrs.Perm attrs') (hn : (attrs.map RawAttribute.name).Nodup)
    (hd : lastDefault? attrs = lastDefault? attrs') (h : (scope.declareAll attrs).2 = none) :
    (scope'.declareAll attrs').2 = none ∧
      Agrees (scope.declareAll attrs).1 (scope'.declareAll attrs').1 := by
  have hnone : (declareAll [] attrs).2 = none :=
    declareAll_eq_none_iff.2 (declareAll_eq_none_iff.1 h)
  have hnone' : (declareAll [] attrs').2 = none :=
    declareAll_eq_none_iff.2 fun a ha => declareAll_eq_none_iff.1 h a (hp.mem_iff.2 ha)
  rw [← List.nil_append scope, ← List.nil_append scope', declareAll_append, declareAll_append]
  refine ⟨hnone', Agrees.append (fun label => ?_) hs⟩
  cases label with
  | none => rw [find?_default_declareAll hnone, find?_default_declareAll hnone', hd]
  | some label =>
    have hperm := (declareAll_perm hnone).trans
      (((hp.flatMap_right _).append_right []).trans (declareAll_perm hnone').symm)
    refine List.find?_eq_find?_of_perm hperm ?_
    rintro b ⟨hb, hlabel⟩ b' ⟨hb', hlabel'⟩
    obtain ⟨a, ha, hvalue, hname⟩ := exists_of_mem_declareAll hnone hb (beq_iff_eq.1 hlabel)
    obtain ⟨a', ha', hvalue', hname'⟩ := exists_of_mem_declareAll hnone hb' (beq_iff_eq.1 hlabel')
    obtain rfl := List.inj_on_of_nodup_map hn ha ha' (hname.trans hname'.symm)
    exact hvalue.trans hvalue'.symm

end Scope

end ManagementScript.Xml
