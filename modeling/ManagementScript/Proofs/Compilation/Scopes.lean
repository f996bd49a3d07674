import ManagementScript.Proofs.Compilation.Content
import ManagementScript.Proofs.Compilation.Tags
import ManagementScript.Proofs.Management.Resource
import ManagementScript.Proofs.Schema.Cardinality

/-!
The scopes of the grammar: elements without content, children that may occur once or exclude each
other, and children under names that differ.
-/

namespace ManagementScript.Compilation

variable {δ σ : Type}

theorem compiles_leaf {c : Construct} (hc : c.Regular) (address : Address) :
    Compiles (leaf c address : Compilation δ Unit) (·.IsLeaf c)
      fun e => .ofCommands [⟨address, c.parametersOf e⟩] := by
  apply Reads.congr
  · apply Reads.readParameters_bind hc c.fresh_empty
    intro t
    exact compiles_requireNoContent.bind fun _ => adds_push ⟨address, c.parametersOf t⟩
  · intro e _
    exact ⟨fun h => ⟨h.1, h.2.1⟩, fun h => ⟨h.tag, h.empty, trivial⟩⟩
  · intro e _
    rfl
  · intro e _
    rfl

theorem Compiles.plain {m : Compilation δ Unit} (h : Compiles m A f) :
    Compiles (do requireNoAttributes; m) (·.IsPlain A) f := by
  apply h.requireNoAttributes_bind.congr
  · intro e _
    exact ⟨fun h => ⟨h.1, h.2⟩, fun h => ⟨h.tag, h.inside⟩⟩
  · intro e _
    rfl
  · intro e _
    rfl

/-! ### Children that may occur once or exclude each other -/

/-- A visit takes a child that is free among those before it, and records it. -/
def Takes (group : List ElementName) (seen : ElementSet) (element : ElementName)
    (m : Compilation δ ElementSet) (A : Element → Prop) (f : Element → Output) : Prop :=
  ReadsAs element m (fun e => seen.Free group element ∧ A e) (fun _ => seen.insert element) f

theorem adds_once (seen : ElementSet) (element : ElementName) :
    Adds (once seen element : Compilation δ ElementSet) (seen.contains element = false)
      (seen.insert element) .nil := by
  apply Adds.location_bind
  intro p
  exact adds_check fun _ => ElementSet.requireOnce_eq_ok_iff

theorem adds_exclusive (seen : ElementSet) (element : ElementName) (group : List ElementName) :
    Adds (exclusive seen element group : Compilation δ ElementSet)
      (seen.intersects (.ofList group) = false) (seen.insert element) .nil := by
  apply Adds.location_bind
  intro p
  exact adds_check fun _ => ElementSet.requireExclusive_eq_ok_iff

theorem takes_of_adds {mark : Compilation δ ElementSet} {body : Compilation δ Unit}
    {seen : ElementSet} (hm : Adds mark (seen.Free group element) (seen.insert element) .nil)
    (h : Compiles body B g) (hA : ∀ e, e.kind = element → (A e ↔ B e))
    (hf : ∀ e, e.kind = element → f e = g e) :
    Takes group seen element (do let seen ← mark; body; return seen) A f := by
  apply (hm.bind_reads (h.bind fun _ => adds_pure (seen.insert element))).readsAs
  · intro e he
    rw [hA e he, and_true]
  · intro e _ _
    rfl
  · intro e he _
    rw [hf e he, Output.nil_append, Output.append_nil]

theorem Compiles.once {body : Compilation δ Unit} {seen : ElementSet} (h : Compiles body B g)
    (hg : element ∉ group) (hA : ∀ e, e.kind = element → (A e ↔ B e))
    (hf : ∀ e, e.kind = element → f e = g e) :
    Takes group seen element (do let seen ← once seen element; body; return seen) A f :=
  takes_of_adds (by simpa only [ElementSet.Free, if_neg hg] using adds_once seen element) h hA hf

theorem Compiles.exclusive {body : Compilation δ Unit} {seen : ElementSet} (h : Compiles body B g)
    (hg : element ∈ group) (hA : ∀ e, e.kind = element → (A e ↔ B e))
    (hf : ∀ e, e.kind = element → f e = g e) :
    Takes group seen element (do let seen ← exclusive seen element group; body; return seen) A f :=
  takes_of_adds (by simpa only [ElementSet.Free, if_pos hg] using adds_exclusive seen element group)
    h hA hf

theorem takes_unexpectedElement {seen : ElementSet} (hA : ∀ e, e.kind = element → ¬A e) :
    Takes group seen element (unexpectedElement : Compilation δ ElementSet) A f :=
  readsAs_unexpectedElement fun e he h => hA e he h.2

theorem reads_apart {visit : ElementSet → ElementName → Compilation δ ElementSet}
    (h : ∀ seen element, Takes group seen element (visit seen element) A f) :
    Reads (forChildren grammar ElementSet.empty visit) (·.HoldsApart grammar group A)
      (fun e => .ofList (e.children.map (·.kind))) fun e => .concat (e.children.map f) := by
  have hv : VisitsBy visit (fun past => .ofList (past.map (·.kind))) (Element.Apart group) A f := by
    intro past element s seen s' hd he
    rw [h _ element hd he]
    have hfree (nodes : List Node) := @ElementSet.free_ofList_iff past (s.cursor.element nodes) group
    subst he
    simp only [List.map_append, List.map_cons, List.map_nil, ElementSet.ofList_concat, ← hfree]
    rfl
  exact hv.reads

theorem Compiles.apart {visit : ElementSet → ElementName → Compilation δ ElementSet}
    (h : ∀ seen element, Takes group seen element (visit seen element) A f) :
    Compiles (do discard <| forChildren grammar ElementSet.empty visit)
      (·.HoldsApart grammar group A) fun e => .concat (e.children.map f) :=
  (reads_apart h).discard

/-! ### Children under names that differ -/

/-- A visit takes a child under a name that is not taken, and reserves it. -/
def TakesNamed (attr : AttributeName) (names : NameSet) (m : Compilation δ NameSet)
    (A : Element → Prop) (f : Element → Output) : Prop :=
  Reads m (fun e => names.contains (e.nameBy attr) = false ∧ A e)
    (fun e => names.insert (e.nameBy attr)) f

theorem adds_reserve (names : NameSet) (element : ElementName) (name : String) (p : Position) :
    Adds (check (names.reserve element name p) : Compilation δ NameSet)
      (names.contains name = false) (names.insert name) .nil :=
  adds_check fun _ => NameSet.reserve_eq_ok_iff

/-- The name of a resource is reserved before what stands inside is read. -/
theorem takes_reserved {c : Construct} {kind : ElementName} {names : NameSet}
    {g : String × Parameters → NameSet → Compilation δ NameSet} {A : Element → Element → Prop}
    {f : Element → Element → Output} (hc : c.Regular) (hname : ∀ e, c.nameOf e = e.nameBy attr)
    (h : ∀ t, Reads (g (t.nameBy attr, c.parametersOf t) (names.insert (t.nameBy attr))) (A t)
      (fun _ => names.insert (t.nameBy attr)) (f t)) :
    TakesNamed attr names (do
        let position ← location
        let resource ← readNamed c
        let names ← check (names.reserve kind resource.1 position)
        g resource names)
      (fun e => c.Accepts e ∧ A e e) fun e => f e e := by
  apply Reads.congr
  · apply Reads.location_bind
    intro p
    apply Reads.readNamed_bind hc
    intro t
    rw [hname]
    exact (adds_reserve names kind _ p).bind_reads (h t)
  · intro e _
    exact and_left_comm
  · intro e _
    rfl
  · intro e _
    exact Output.nil_append _

theorem Compiles.named {visit : NameSet → ElementName → Compilation δ NameSet}
    {body : NameSet → Compilation δ NameSet} {kind : ElementName}
    (h : ∀ names, TakesNamed attr names (body names) A f)
    (hbody : ∀ names, visit names kind = body names)
    (hother : ∀ names element, element ≠ kind → visit names element = unexpectedElement) :
    Compiles (do discard <| forChildren grammar NameSet.empty visit)
      (·.HoldsNamed grammar kind attr A) fun e => .concat (e.children.map f) := by
  have hv : VisitsBy visit (fun past => .ofList (past.map (·.nameBy attr))) (Element.Unlike attr)
      (fun c => c.kind = kind ∧ A c) f := by
    intro past element
    simp only [List.map_append, List.map_cons, List.map_nil, NameSet.ofList_concat,
      ← NameSet.contains_ofList_iff]
    by_cases hk : element = kind
    · rw [hk, hbody]
      exact (h _).readsAs (fun e he => by simp only [he, true_and]) (fun _ _ _ => rfl)
        fun _ _ _ => rfl
    · rw [hother _ _ hk]
      exact readsAs_unexpectedElement fun e he h => hk (he.symm.trans h.2.1)
  exact hv.reads.discard

end ManagementScript.Compilation
