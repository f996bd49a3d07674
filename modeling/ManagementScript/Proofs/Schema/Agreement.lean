import ManagementScript.Proofs.Schema.Values
import ManagementScript.Schema.Cardinality
import ManagementScript.Schema.Construct

/-!
A check comes to one result wherever in a document it is made. Places and names of elements only go
into its errors, and these are never errors of reading.
-/

namespace ManagementScript

/-- The results of one check at two places: one value, or errors of the check. -/
inductive Agrees : Except CompilationError α → Except CompilationError α → Prop where
  | ok (a : α) : Agrees (.ok a) (.ok a)
  | error (h : ∀ r, e ≠ .reader r) (h' : ∀ r, e' ≠ .reader r) : Agrees (.error e) (.error e')

namespace Agrees

theorem pure (a : α) : Agrees (Pure.pure a) (Pure.pure a) := .ok a

theorem eq_ok {x y : Except CompilationError α} (h : Agrees x y) (hx : x = .ok a) : y = .ok a := by
  cases h with
  | ok => exact hx
  | error => cases hx

theorem ne_reader {x y : Except CompilationError α} (h : Agrees x y) (hx : x = .error e) (r : ReadError) :
    e ≠ .reader r := by
  cases h with
  | ok => cases hx
  | error h =>
    cases hx
    exact h r

theorem bind {x y : Except CompilationError α} {f g : α → Except CompilationError β}
    (h : Agrees x y) (hf : ∀ a, Agrees (f a) (g a)) : Agrees (x >>= f) (y >>= g) := by
  cases h with
  | ok a => exact hf a
  | error h h' => exact .error h h'

/-- A condition that is checked does not depend on the place. -/
theorem ite [Decidable q] (h : ∀ r, e ≠ .reader r) (h' : ∀ r, e' ≠ .reader r) (a : α) :
    Agrees (if q then .error e else .ok a) (if q then .error e' else .ok a) := by
  split
  · exact .error h h'
  · exact .ok a

theorem foldlM {f g : β → α → Except CompilationError β} (hf : ∀ b a, Agrees (f b a) (g b a)) (b : β)
    (xs : List α) : Agrees (xs.foldlM f b) (xs.foldlM g b) := by
  induction xs generalizing b with
  | nil => exact .pure b
  | cons x xs ih =>
    rw [List.foldlM_cons, List.foldlM_cons]
    exact (hf b x).bind fun _ => ih _

end Agrees

namespace AttributeDefinition

theorem parse_ne_reader {d : AttributeDefinition} {p : Position} (h : d.parse raw attr p = .error e)
    (r : ReadError) : e ≠ .reader r := by
  rintro rfl
  simp only [parse] at h
  repeat' (split at h <;> try cases h)

theorem parse_agrees (d : AttributeDefinition) (raw : String) (attr : AttributeName) (p p' : Position) :
    Agrees (d.parse raw attr p) (d.parse raw attr p') := by
  cases h : d.parse raw attr p with
  | ok v =>
    rw [d.parse_eq_ok raw attr attr p p' h]
    exact .ok v
  | error e =>
    cases h' : d.parse raw attr p' with
    | ok v =>
      rw [d.parse_eq_ok raw attr attr p' p h'] at h
      cases h
    | error e' => exact .error (parse_ne_reader h) (parse_ne_reader h')

theorem storeItems_ne_reader {parameter : String} {items : List Value}
    (h : storeItems parameter ps items = (.error e, ps')) (r : ReadError) : e ≠ .reader r := by
  rintro rfl
  induction items generalizing ps with
  | nil => cases h
  | cons item items ih =>
    simp only [storeItems] at h
    split at h
    · cases h
    · exact ih h

end AttributeDefinition

namespace Construct

theorem parameter_agrees (c : Construct) (attr : AttributeName) (raw : String) (r : Reading)
    (element element' : String) (p p' : Position) :
    Agrees (readOne.parameter c element p attr raw r)
      (readOne.parameter c element' p' attr raw r) := by
  simp only [readOne.parameter]
  cases c.parameters.lookup attr with
  | none => exact .error (by simp) (by simp)
  | some d =>
    by_cases hk : d.kind = .list
    · simp only [AttributeDefinition.store, hk]
      cases h : AttributeDefinition.storeItems d.parameter r.parameters
        (AttributeDefinition.splitItems raw) with
      | mk result ps =>
        cases result with
        | ok u => exact .ok _
        | error e =>
          exact .error (AttributeDefinition.storeItems_ne_reader h)
            (AttributeDefinition.storeItems_ne_reader h)
    · simp only [AttributeDefinition.store_of_ne_list hk]
      have h := d.parse_agrees raw attr p p'
      generalize d.parse raw attr p = x at h
      generalize d.parse raw attr p' = y at h
      cases h with
      | ok v => exact .ok _
      | error h h' => exact .error h h'

theorem readOne_agrees (c : Construct) (r : Reading) (a : AttributeName × String)
    (element element' : String) (p p' : Position) :
    Agrees (c.readOne element p r a.1 a.2) (c.readOne element' p' r a.1 a.2) := by
  simp only [readOne]
  cases c.identifier with
  | none => exact c.parameter_agrees ..
  | some x =>
    simp only
    split
    · exact (x.2.parse_agrees a.2 a.1 p p').bind fun _ => .pure _
    · exact c.parameter_agrees ..

/-- What is read from attributes depends neither on the element that carries them nor on its place. -/
theorem read_agrees (c : Construct) (ps : Parameters) (attrs : List (AttributeName × String))
    (element element' : String) (p p' : Position) :
    Agrees (c.read element p ps attrs) (c.read element' p' ps attrs) := by
  apply (Agrees.foldlM (fun r a => c.readOne_agrees r a element element' p p') _ attrs).bind
  intro r
  apply Agrees.bind
  · simp only [RequiredAttributes.finish]
    split
    · exact .ok ()
    · exact .error (by simp) (by simp)
  · intro _
    exact .pure r

end Construct

theorem ElementSet.requireOnce_agrees (s : ElementSet) (element : ElementName) (p p' : Position) :
    Agrees (s.requireOnce element p) (s.requireOnce element p') :=
  .ite (by simp) (by simp) _

theorem ElementSet.requireExclusive_agrees (s : ElementSet) (element : ElementName)
    (group : List ElementName) (p p' : Position) :
    Agrees (s.requireExclusive element group p) (s.requireExclusive element group p') :=
  .ite (by simp) (by simp) _

theorem NameSet.reserve_agrees (s : NameSet) (element : ElementName) (name : String) (p p' : Position) :
    Agrees (s.reserve element name p) (s.reserve element name p') :=
  .ite (by simp) (by simp) _

end ManagementScript
