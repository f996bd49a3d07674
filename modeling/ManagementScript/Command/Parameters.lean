import ManagementScript.Command.Value
import ManagementScript.Text.Dictionary

/-! The named parameters of a command, kept in the order of their names. -/

namespace ManagementScript

abbrev Parameters := Dictionary Value

namespace Parameters

/-- The items a parameter has as a list: a value that is no list counts as the only item. -/
def itemsOf (ps : Parameters) (name : String) : List Value :=
  match ps.get? name with
  | none => []
  | some (.list items) => items
  | some value => [value]

/-- Appends to a list parameter, and gives the length of the list. -/
def addToList (ps : Parameters) (name : String) (value : Value) : Parameters × Nat :=
  let items := ps.itemsOf name ++ [value]
  (ps.set name (.list items), items.length)

theorem itemsOf_addToList (ps : Parameters) (name : String) (value : Value) :
    (ps.addToList name value).1.itemsOf name = ps.itemsOf name ++ [value] := by
  simp only [addToList, itemsOf, Dictionary.get?_set_self]

theorem get?_addToList_of_ne (ps : Parameters) {name other : String} (value : Value)
    (h : other ≠ name) : (ps.addToList name value).1.get? other = ps.get? other :=
  ps.get?_set_of_ne _ h

end Parameters

end ManagementScript
