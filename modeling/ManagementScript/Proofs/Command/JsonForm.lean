import ManagementScript.Command.Script
import ManagementScript.Proofs.Text.Json

/-!
The JSON form of commands. Numbers of both widths are written in one way; of commands without numbers of
the wide kind the form tells everything. No object in it has a name twice, where a command has no
parameter that is named like one of its own fields.
-/

namespace ManagementScript

namespace Json

mutual

/-- In every object the names differ. -/
def NamesDiffer : Json → Prop
  | .array items => AllNamesDiffer items
  | .object fields => (fields.map Prod.fst).Nodup ∧ FieldNamesDiffer fields
  | .null | .boolean _ | .number _ | .string _ => True

def AllNamesDiffer : List Json → Prop
  | [] => True
  | item :: items => item.NamesDiffer ∧ AllNamesDiffer items

def FieldNamesDiffer : List (String × Json) → Prop
  | [] => True
  | (_, value) :: fields => value.NamesDiffer ∧ FieldNamesDiffer fields

end

theorem allNamesDiffer_iff {items : List Json} :
    AllNamesDiffer items ↔ ∀ item ∈ items, item.NamesDiffer := by
  induction items with
  | nil => simp [AllNamesDiffer]
  | cons item items ih => rw [AllNamesDiffer, ih, List.forall_mem_cons]

theorem fieldNamesDiffer_iff {fields : List (String × Json)} :
    FieldNamesDiffer fields ↔ ∀ field ∈ fields, field.2.NamesDiffer := by
  induction fields with
  | nil => simp [FieldNamesDiffer]
  | cons field fields ih => rw [FieldNamesDiffer, ih, List.forall_mem_cons]

end Json

namespace Value

mutual

/-- Whether a value is a number of the wide kind, or a list with one inside. -/
def hasLong : Value → Bool
  | .long _ => true
  | .list items => anyLong items
  | .string _ | .boolean _ | .int _ | .expression _ => false

def anyLong : List Value → Bool
  | [] => false
  | item :: items => item.hasLong || anyLong items

end

mutual

theorem toJson_inj : ∀ {v w : Value}, v.hasLong = false → w.hasLong = false →
    v.toJson = w.toJson → v = w
  | .string _, w, _, hw, h => by cases w <;> simp_all [toJson, hasLong]
  | .boolean _, w, _, hw, h => by cases w <;> simp_all [toJson, hasLong]
  | .int _, w, _, hw, h => by cases w <;> simp_all [toJson, hasLong]
  | .expression _, w, _, hw, h => by cases w <;> simp_all [toJson, hasLong]
  | .list xs, w, hv, hw, h => by
    cases w with
    | list ys =>
      simp only [toJson, Json.array.injEq] at h
      rw [itemsToJson_inj hv hw h]
    | _ => simp [toJson] at h

theorem itemsToJson_inj : ∀ {xs ys : List Value}, anyLong xs = false → anyLong ys = false →
    itemsToJson xs = itemsToJson ys → xs = ys
  | [], ys, _, _, h => by cases ys with
    | nil => rfl
    | cons y ys => cases h
  | x :: xs, ys, hx, hy, h => by
    cases ys with
    | nil => cases h
    | cons y ys =>
      simp only [anyLong, Bool.or_eq_false_iff] at hx hy
      obtain ⟨hhead, htail⟩ := List.cons.inj h
      rw [toJson_inj hx.1 hy.1 hhead, itemsToJson_inj hx.2 hy.2 htail]

end

mutual

theorem namesDiffer_toJson : ∀ v : Value, v.toJson.NamesDiffer
  | .string _ | .boolean _ | .int _ | .long _ => trivial
  | .expression _ => ⟨List.pairwise_singleton .., trivial, trivial⟩
  | .list items => allNamesDiffer_itemsToJson items

theorem allNamesDiffer_itemsToJson : ∀ items : List Value, Json.AllNamesDiffer (itemsToJson items)
  | [] => trivial
  | item :: items => ⟨item.namesDiffer_toJson, allNamesDiffer_itemsToJson items⟩

end

end Value

namespace Address

theorem toJson_injective {a b : Address} (h : a.toJson = b.toJson) : a = b := by
  obtain ⟨segments⟩ := a
  obtain ⟨segments'⟩ := b
  have hsegments := List.map_inj_right (f := fun s : Segment => Json.object [(s.key, .string s.value)])
    (fun s t h => ?_) |>.1 (Json.array.inj h)
  · exact congrArg mk hsegments
  · obtain ⟨key, value⟩ := s
    cases h
    rfl

theorem namesDiffer_toJson (a : Address) : a.toJson.NamesDiffer := by
  refine Json.allNamesDiffer_iff.2 (List.forall_mem_map.2 fun s _ => ?_)
  exact ⟨List.pairwise_singleton .., trivial, trivial⟩

end Address

namespace Command

/-- Nothing about the command is lost in JSON: no parameter is a number of the wide kind, and none is
named like the operation or the address. -/
structure Faithful (c : Command) : Prop where
  short : ∀ x ∈ c.parameters.entries, x.2.hasLong = false
  free : ∀ x ∈ c.parameters.entries, x.1 ≠ "operation" ∧ x.1 ≠ "address"

theorem entries_inj {xs ys : List (String × Value)} (hx : ∀ x ∈ xs, x.2.hasLong = false)
    (hy : ∀ y ∈ ys, y.2.hasLong = false)
    (h : xs.map (fun x => (x.1, x.2.toJson)) = ys.map fun y => (y.1, y.2.toJson)) : xs = ys := by
  induction xs generalizing ys with
  | nil => exact (List.map_eq_nil_iff.1 h.symm).symm
  | cons x xs ih =>
    cases ys with
    | nil => cases h
    | cons y ys =>
      obtain ⟨hhead, htail⟩ := List.cons.inj h
      obtain ⟨hx, hxs⟩ := List.forall_mem_cons.1 hx
      obtain ⟨hy, hys⟩ := List.forall_mem_cons.1 hy
      obtain ⟨hname, hvalue⟩ := Prod.mk.inj hhead
      rw [ih hxs hys htail, Prod.ext hname (Value.toJson_inj hx hy hvalue)]

theorem Faithful.toJson_inj {c d : Command} (hc : c.Faithful) (hd : d.Faithful)
    (h : c.toJson = d.toJson) : c = d := by
  obtain ⟨address, ⟨entries⟩⟩ := c
  obtain ⟨address', ⟨entries'⟩⟩ := d
  simp only [toJson, Json.object.injEq, List.cons.injEq, Prod.mk.injEq, true_and] at h
  obtain ⟨haddress, hentries⟩ := h
  obtain rfl : address = address' := Address.toJson_injective haddress
  obtain rfl : entries = entries' := entries_inj hc.short hd.short hentries
  rfl

/-- Where the names of the parameters differ, no object in the form has a name twice. -/
theorem Faithful.namesDiffer {c : Command} (hc : c.Faithful)
    (hn : (c.parameters.entries.map Prod.fst).Nodup) : c.toJson.NamesDiffer := by
  have hnames : (c.parameters.entries.map fun x => (x.1, x.2.toJson)).map Prod.fst =
      c.parameters.entries.map Prod.fst := by
    rw [List.map_map]
    rfl
  refine ⟨?_, trivial, c.address.namesDiffer_toJson, ?_⟩
  · simp only [List.map_cons, hnames, List.nodup_cons, List.mem_cons, List.mem_map, not_or]
    refine ⟨⟨by decide, ?_⟩, ?_, hn⟩
    · rintro ⟨x, hx, he⟩
      exact (hc.free x hx).1 he
    · rintro ⟨x, hx, he⟩
      exact (hc.free x hx).2 he
  · exact Json.fieldNamesDiffer_iff.2 (List.forall_mem_map.2 fun x _ => x.2.namesDiffer_toJson)

end Command

namespace Script

theorem toJson_inj {s t : Script} (hs : ∀ c ∈ s.toList, c.Faithful) (ht : ∀ c ∈ t.toList, c.Faithful)
    (h : s.toJson = t.toJson) : s = t := by
  have hlists {cs ds : List Command} (hc : ∀ c ∈ cs, c.Faithful) (hd : ∀ d ∈ ds, d.Faithful)
      (h : cs.map (·.toJson) = ds.map (·.toJson)) : cs = ds := by
    induction cs generalizing ds with
    | nil => exact (List.map_eq_nil_iff.1 h.symm).symm
    | cons c cs ih =>
      cases ds with
      | nil => cases h
      | cons d ds =>
        obtain ⟨hhead, htail⟩ := List.cons.inj h
        obtain ⟨hc, hcs⟩ := List.forall_mem_cons.1 hc
        obtain ⟨hd, hds⟩ := List.forall_mem_cons.1 hd
        rw [hc.toJson_inj hd hhead, ih hcs hds htail]
  obtain ⟨⟨commands⟩⟩ := s
  obtain ⟨⟨commands'⟩⟩ := t
  rw [show commands = commands' from hlists hs ht (Json.array.inj h)]

end Script

end ManagementScript
