import Mathlib.Data.List.Nodup
import ManagementScript.Proofs.Result
import ManagementScript.Proofs.Schema.Values
import ManagementScript.Proofs.Tree.Attributes
import ManagementScript.Schema.Catalogue

/-!
Which start tags a construct accepts. The reading of attributes one by one is a check that each of
them is listed and has a value that its definition takes, and that none of the required ones is
missing; what is read are the parameters that the attributes become, in order.
-/

namespace ManagementScript

namespace Construct

/-- The attribute names the resource. -/
def identifies (c : Construct) (attr : AttributeName) : Bool :=
  match c.identifier with
  | some (identifier, _) => attr == identifier
  | none => false

theorem eq_of_identifies {c : Construct} (h : c.identifies attr) (h' : c.identifies attr') :
    attr = attr' := by
  rw [identifies] at h h'
  cases hid : c.identifier with
  | none => simp [hid] at h
  | some x =>
    rw [hid] at h h'
    exact (eq_of_beq h).trans (eq_of_beq h').symm

/-- What a construct says about an attribute. -/
def definition? (c : Construct) (attr : AttributeName) : Option AttributeDefinition :=
  if c.identifies attr then c.identifier.map (·.2) else c.parameters.lookup attr

/-- The parameters that an attribute becomes. -/
def entriesOf (c : Construct) (a : AttributeName × String) : List (String × Value) :=
  if c.identifies a.1 then [] else ((c.parameters.lookup a.1).map (·.entries a.2)).getD []

/-- No two attributes become one parameter, and resources are named by texts. -/
structure Regular (c : Construct) : Prop where
  distinct : (c.parameters.map (·.2.parameter)).Nodup
  named : ∀ x ∈ c.identifier, x.2.isText
  known : c.definition? .unknown = none

instance (c : Construct) : Decidable c.Regular :=
  decidable_of_iff ((c.parameters.map (·.2.parameter)).Nodup ∧
      (∀ x ∈ c.identifier, x.2.isText) ∧ c.definition? .unknown = none)
    ⟨fun h => ⟨h.1, h.2.1, h.2.2⟩, fun h => ⟨h.distinct, h.named, h.known⟩⟩

theorem regular_property (valueRequired : Bool) : (property valueRequired).Regular := by
  cases valueRequired <;> decide

theorem regular_plugInSource (withMechanism : Bool) : (plugInSource withMechanism).Regular := by
  cases withMechanism <;> decide

theorem regular_authenticationFilter (advanced : Bool) : (authenticationFilter advanced).Regular := by
  cases advanced <;> decide

theorem regular_userSearch (advanced : Bool) : (userSearch advanced).Regular := by
  cases advanced <;> decide

/-- None of the lists that the attributes become is there already. -/
def Fresh (c : Construct) (ps : Parameters) : Prop :=
  ∀ x ∈ c.parameters, x.2.kind = .list → ps.get? x.2.parameter = none

theorem fresh_empty (c : Construct) : c.Fresh .empty := fun _ _ _ => rfl

/-- Every attribute is listed with a value that is accepted, and the required ones are there. -/
structure AcceptsNamed (c : Construct) (attrs : List (AttributeName × String)) : Prop where
  listed : ∀ a ∈ attrs, ∃ d, c.definition? a.1 = some d ∧ d.Accepts a.2
  complete : ∀ attr ∈ c.required, attr ∈ attrs.map Prod.fst

/-- What is read from attributes on top of the parameters `ps`. -/
def reading (c : Construct) (ps : Parameters) (attrs : List (AttributeName × String)) : Reading :=
  ⟨(attrs.find? (c.identifies ·.1)).map (·.2), ps.setAll (attrs.flatMap c.entriesOf), ⟨[]⟩⟩

theorem mem_of_lookup [BEq α] [LawfulBEq α] {l : List (α × β)} (h : l.lookup a = some b) :
    (a, b) ∈ l := by
  induction l with
  | nil => cases h
  | cons x l ih =>
    rw [List.lookup_cons] at h
    split at h
    · next he =>
      cases h
      rw [eq_of_beq he]
      exact List.mem_cons_self ..
    · exact List.mem_cons_of_mem _ (ih h)

/-- The attributes before which no list parameter of theirs is there. -/
def FreshFor (c : Construct) (ps : Parameters) (attrs : List (AttributeName × String)) : Prop :=
  ∀ a ∈ attrs, ∀ d, c.parameters.lookup a.1 = some d → d.kind = .list →
    ps.get? d.parameter = none

theorem Regular.parameter_ne {c : Construct} (hc : c.Regular)
    (hd : c.parameters.lookup attr = some d) (hd' : c.parameters.lookup attr' = some d')
    (hne : attr ≠ attr') : d.parameter ≠ d'.parameter := by
  intro hp
  have hpair : (attr, d) = (attr', d') :=
    List.inj_on_of_nodup_map hc.distinct (mem_of_lookup hd) (mem_of_lookup hd') hp
  exact hne (congrArg (fun x : AttributeName × AttributeDefinition => x.1) hpair)

theorem Regular.freshFor_tail {c : Construct} (hc : c.Regular)
    (hd : ((a :: attrs).map Prod.fst).Nodup) (hf : c.FreshFor ps (a :: attrs)) :
    c.FreshFor (ps.setAll (c.entriesOf a)) attrs := by
  intro b hb d hlookup hk
  have hold := hf b (List.mem_cons_of_mem _ hb) d hlookup hk
  rw [← hold]
  apply Dictionary.get?_setAll_of_notMem
  intro hmem
  obtain ⟨x, hx, he⟩ := List.mem_map.1 hmem
  simp only [entriesOf] at hx
  split at hx
  · cases hx
  cases ha : c.parameters.lookup a.1 with
  | none => simp [ha] at hx
  | some d' =>
    simp only [ha, Option.map_some, Option.getD_some] at hx
    have hp : d'.parameter = d.parameter := (AttributeDefinition.fst_of_mem_entries hx).symm.trans he
    have hne : a.1 ≠ b.1 := by
      intro h
      exact (List.nodup_cons.1 hd).1 (h ▸ List.mem_map_of_mem hb)
    exact hc.parameter_ne ha hlookup hne hp

/-- What becomes of the reading when one more attribute is read. -/
def step (c : Construct) (r : Reading) (a : AttributeName × String) : Reading :=
  ⟨if c.identifies a.1 then some a.2 else r.identifier, r.parameters.setAll (c.entriesOf a),
    r.required.see a.1⟩

theorem parameter_eq_ok_iff {c : Construct} {position : Position} (hi : c.identifies a.1 = false)
    (hf : c.FreshFor r.parameters [a]) :
    readOne.parameter c element position a.1 a.2 { r with required := r.required.see a.1 } = .ok r' ↔
      (∃ d, c.definition? a.1 = some d ∧ d.Accepts a.2) ∧ r' = c.step r a := by
  simp only [readOne.parameter, definition?, step, entriesOf, hi]
  cases hl : c.parameters.lookup a.1 with
  | none => simp
  | some d =>
    have hstore {ps'} : d.store a.2 a.1 r.parameters position = (.ok (), ps') ↔
        d.Accepts a.2 ∧ ps' = r.parameters.setAll (d.entries a.2) :=
      AttributeDefinition.store_eq_ok_iff (hf a (List.mem_singleton_self a) d hl)
    cases hs : d.store a.2 a.1 r.parameters position with
    | mk result ps =>
      cases result with
      | ok u =>
        obtain ⟨ha, rfl⟩ := hstore.1 hs
        simp [hs, ha, eq_comm]
      | error e =>
        have hna : ¬ d.Accepts a.2 := by
          intro ha
          have ho := hstore.2 ⟨ha, rfl⟩
          rw [hs] at ho
          cases ho
        simp [hs, hna]

theorem Regular.readOne_eq_ok_iff {c : Construct} {position : Position} (hc : c.Regular)
    (hf : c.FreshFor r.parameters [a]) :
    c.readOne element position r a.1 a.2 = .ok r' ↔
      (∃ d, c.definition? a.1 = some d ∧ d.Accepts a.2) ∧ r' = c.step r a := by
  cases hid : c.identifier with
  | none =>
    have hi : c.identifies a.1 = false := by simp [identifies, hid]
    simp only [readOne, hid]
    exact parameter_eq_ok_iff hi hf
  | some x =>
    obtain ⟨attr, d⟩ := x
    by_cases he : a.1 = attr
    · have hi : c.identifies a.1 = true := by simp [identifies, hid, he]
      have ht : d.isText := hc.named (attr, d) hid
      have hdef : c.definition? a.1 = some d := by simp [definition?, hi, hid]
      simp only [readOne, hid, he, beq_self_eq_true, ↓reduceIte, bind_eq_ok_iff,
        AttributeDefinition.parse_eq_ok_iff]
      rw [← he, hdef]
      simp only [Option.some.injEq, exists_eq_left', AttributeDefinition.accepts_iff_of_isText ht]
      apply Iff.intro
      · intro h
        obtain ⟨v, hv, hr⟩ := h
        cases hr
        refine ⟨by rw [hv]; rfl, ?_⟩
        simp [step, entriesOf, hi, AttributeDefinition.text?_of_value? ht hv]
      · intro h
        obtain ⟨hv, rfl⟩ := h
        obtain ⟨v, hv⟩ := Option.isSome_iff_exists.1 hv
        refine ⟨v, hv, ?_⟩
        simp [step, entriesOf, hi, AttributeDefinition.text?_of_value? ht hv, pure, Except.pure]
    · have hi : c.identifies a.1 = false := by simp [identifies, hid, he]
      simp only [readOne, hid, he, beq_iff_eq, ↓reduceIte]
      exact parameter_eq_ok_iff hi hf

theorem Regular.foldlM_eq_ok_iff {c : Construct} {position : Position} (hc : c.Regular)
    (hd : (attrs.map Prod.fst).Nodup) (hf : c.FreshFor r.parameters attrs) :
    attrs.foldlM (fun r (attr, raw) => c.readOne element position r attr raw) r = .ok r' ↔
      (∀ a ∈ attrs, ∃ d, c.definition? a.1 = some d ∧ d.Accepts a.2) ∧
        r' = attrs.foldl c.step r := by
  induction attrs generalizing r with
  | nil => simp [pure, Except.pure, eq_comm]
  | cons a attrs ih =>
    have hone : c.FreshFor r.parameters [a] := fun b hb =>
      hf b (List.mem_singleton.1 hb ▸ List.mem_cons_self ..)
    rw [List.foldlM_cons, bind_eq_ok_iff, List.forall_mem_cons, List.foldl_cons]
    simp only [hc.readOne_eq_ok_iff hone]
    apply Iff.intro
    · intro h
      obtain ⟨_, ⟨ha, rfl⟩, h⟩ := h
      obtain ⟨hl, rfl⟩ := (ih (List.nodup_cons.1 hd).2 (hc.freshFor_tail hd hf)).1 h
      exact ⟨⟨ha, hl⟩, rfl⟩
    · intro h
      obtain ⟨⟨ha, hl⟩, rfl⟩ := h
      exact ⟨_, ⟨ha, rfl⟩, (ih (List.nodup_cons.1 hd).2 (hc.freshFor_tail hd hf)).2 ⟨hl, rfl⟩⟩

theorem foldl_step_parameters (c : Construct) (r : Reading) (attrs : List (AttributeName × String)) :
    (attrs.foldl c.step r).parameters = r.parameters.setAll (attrs.flatMap c.entriesOf) := by
  induction attrs generalizing r with
  | nil => rfl
  | cons a attrs ih =>
    rw [List.foldl_cons, ih, List.flatMap_cons, Dictionary.setAll_append]
    rfl

theorem foldl_step_required (c : Construct) (r : Reading) (attrs : List (AttributeName × String)) :
    (attrs.foldl c.step r).required =
      ⟨r.required.missing.filter fun attr => attr ∉ attrs.map Prod.fst⟩ := by
  induction attrs generalizing r with
  | nil => simp
  | cons a attrs ih =>
    rw [List.foldl_cons, ih]
    simp only [step, RequiredAttributes.see, List.filter_filter]
    congr 2
    funext attr
    rw [Bool.eq_iff_iff]
    simp [and_comm]

theorem foldl_step_identifier (c : Construct) (r : Reading) {attrs : List (AttributeName × String)}
    (hd : (attrs.map Prod.fst).Nodup) :
    (attrs.foldl c.step r).identifier =
      ((attrs.find? (c.identifies ·.1)).map (·.2)).or r.identifier := by
  induction attrs generalizing r with
  | nil => rfl
  | cons a attrs ih =>
    rw [List.foldl_cons, ih _ (List.nodup_cons.1 hd).2, List.find?_cons]
    by_cases hi : c.identifies a.1
    · have hrest : attrs.find? (c.identifies ·.1) = none := by
        rw [List.find?_eq_none]
        intro b hb hib
        have he := eq_of_identifies hi hib
        exact (List.nodup_cons.1 hd).1 (he ▸ List.mem_map_of_mem hb)
      simp [hrest, hi, step]
    · simp [hi, step]

theorem foldl_step_eq_reading {c : Construct} (hd : (attrs.map Prod.fst).Nodup)
    (h : c.AcceptsNamed attrs) :
    attrs.foldl c.step ⟨none, ps, ⟨c.required⟩⟩ = c.reading ps attrs := by
  have hnone : c.required.filter (fun attr => attr ∉ attrs.map Prod.fst) = [] := by
    rw [List.filter_eq_nil_iff]
    intro attr hattr
    simpa using h.complete attr hattr
  have hr := foldl_step_required c ⟨none, ps, ⟨c.required⟩⟩ attrs
  have hp := foldl_step_parameters c ⟨none, ps, ⟨c.required⟩⟩ attrs
  have hi := foldl_step_identifier c ⟨none, ps, ⟨c.required⟩⟩ hd
  cases he : attrs.foldl c.step ⟨none, ps, ⟨c.required⟩⟩ with
  | mk identifier parameters required =>
    rw [he] at hr hp hi
    simp only [hnone] at hr
    simp only [Option.or_none] at hi
    simp only at hp
    rw [hr, hp, hi, reading]

/-- The attributes of a start tag are read where the construct accepts them. -/
theorem Regular.read_eq_ok_iff {c : Construct} {position : Position} (hc : c.Regular)
    (hd : (attrs.map Prod.fst).Nodup) (hf : c.Fresh ps) :
    c.read element position ps attrs = .ok r ↔
      c.AcceptsNamed attrs ∧ r = c.reading ps attrs := by
  have hfor : c.FreshFor (Reading.mk none ps ⟨c.required⟩).parameters attrs :=
    fun a _ d hl => hf _ (mem_of_lookup hl)
  have hfinish : ((attrs.foldl c.step ⟨none, ps, ⟨c.required⟩⟩).required.finish element position =
      .ok ()) ↔ ∀ attr ∈ c.required, attr ∈ attrs.map Prod.fst := by
    rw [foldl_step_required, RequiredAttributes.finish, RequiredAttributes.isSatisfied]
    split
    · next he => simpa using he
    · next he => simpa using he
  simp only [read, bind_eq_ok_iff, hc.foldlM_eq_ok_iff hd hfor]
  apply Iff.intro
  · intro h
    obtain ⟨_, ⟨hl, rfl⟩, _, hfin, hr⟩ := h
    have ha : c.AcceptsNamed attrs := ⟨hl, hfinish.1 hfin⟩
    cases hr
    exact ⟨ha, foldl_step_eq_reading hd ha⟩
  · intro h
    obtain ⟨h, rfl⟩ := h
    exact ⟨_, ⟨h.listed, rfl⟩, (), hfinish.2 h.complete, congrArg _ (foldl_step_eq_reading hd h)⟩

/-- A start tag is accepted if its attributes are, none of which may be in a namespace. -/
structure Accepts (c : Construct) (e : Element) : Prop extends c.AcceptsNamed e.named where
  unlabelled : ∀ a ∈ e.attributes, a.namespaceUri = none

/-- The parameters that the attributes of an element become. -/
def entries (c : Construct) (e : Element) : List (String × Value) := e.named.flatMap c.entriesOf

/-- The parameters that come from a construct are its own. -/
theorem exists_of_mem_entries {c : Construct} {e : Element} (h : x ∈ c.entries e) :
    ∃ d ∈ c.parameters, d.2.parameter = x.1 := by
  obtain ⟨a, _, hx⟩ := List.mem_flatMap.1 h
  simp only [entriesOf] at hx
  split at hx
  · cases hx
  cases hl : c.parameters.lookup a.1 with
  | none => simp [hl] at hx
  | some d =>
    simp only [hl, Option.map_some, Option.getD_some] at hx
    exact ⟨_, mem_of_lookup hl, (AttributeDefinition.fst_of_mem_entries hx).symm⟩

theorem fresh_of_noLists {c : Construct} (h : ∀ x ∈ c.parameters, x.2.kind ≠ .list)
    (ps : Parameters) : c.Fresh ps :=
  fun x hx hk => absurd hk (h x hx)

theorem Fresh.setAll {c : Construct} (h : c.Fresh ps)
    (hd : ∀ x ∈ pairs, ∀ d ∈ c.parameters, d.2.kind = .list → d.2.parameter ≠ x.1) :
    c.Fresh (ps.setAll pairs) := by
  intro d hmem hk
  rw [Dictionary.get?_setAll_of_notMem, h d hmem hk]
  intro hp
  obtain ⟨x, hx, he⟩ := List.mem_map.1 hp
  exact hd x hx d hmem hk he.symm

def parametersOf (c : Construct) (e : Element) : Parameters := .ofList (c.entries e)

end Construct

end ManagementScript
