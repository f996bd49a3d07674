/-! Dictionaries from texts to values, whose entries stand in the order of their keys. -/

namespace ManagementScript

/-- Values under keys, ascending by key. -/
structure Dictionary (α : Type) where
  entries : List (String × α)
deriving Repr

namespace Dictionary

variable {α : Type}

def empty : Dictionary α := ⟨[]⟩

/-- Puts a value under a key into ascending entries, in the place of the value it had. -/
def insertInto (key : String) (value : α) : List (String × α) → List (String × α)
  | [] => [(key, value)]
  | (other, old) :: entries =>
    if key < other then (key, value) :: (other, old) :: entries
    else if key == other then (key, value) :: entries
    else (other, old) :: insertInto key value entries

def set (d : Dictionary α) (key : String) (value : α) : Dictionary α :=
  ⟨insertInto key value d.entries⟩

/-- The dictionary of pairs; of two values under one key the later counts. -/
def ofList (pairs : List (String × α)) : Dictionary α :=
  pairs.foldl (fun d (key, value) => d.set key value) empty

def get? (d : Dictionary α) (key : String) : Option α := d.entries.lookup key

def contains (d : Dictionary α) (key : String) : Bool := (d.get? key).isSome

def size (d : Dictionary α) : Nat := d.entries.length

def isEmpty (d : Dictionary α) : Bool := d.entries.isEmpty

theorem get?_set_self (d : Dictionary α) (key : String) (value : α) :
    (d.set key value).get? key = some value := by
  obtain ⟨entries⟩ := d
  induction entries with
  | nil => simp [set, get?, insertInto]
  | cons entry entries ih =>
    obtain ⟨other, old⟩ := entry
    simp only [set, get?, insertInto] at ih ⊢
    split
    · exact List.lookup_cons_self
    · split
      · exact List.lookup_cons_self
      · next h => simpa [List.lookup_cons, h] using ih

theorem get?_set_of_ne (d : Dictionary α) {key other : String} (value : α) (h : other ≠ key) :
    (d.set key value).get? other = d.get? other := by
  obtain ⟨entries⟩ := d
  have hne : (other == key) = false := by simpa using h
  induction entries with
  | nil => simp [set, get?, insertInto, List.lookup_cons, hne]
  | cons entry entries ih =>
    obtain ⟨found, old⟩ := entry
    simp only [set, get?, insertInto] at ih ⊢
    split
    · simp [List.lookup_cons, hne]
    · split
      · next hk =>
        obtain rfl := eq_of_beq hk
        simp [List.lookup_cons, hne]
      · simp only [List.lookup_cons, ih]

end Dictionary

end ManagementScript
