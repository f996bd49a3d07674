import ManagementScript.Command.Basic

/-! Trees of resources, and the commands that add them. -/

namespace ManagementScript

/-- A resource below some owner, with the resources below it. -/
inductive Resource where
  | mk (segment : Segment) (parameters : Parameters) (children : List Resource)

namespace Resource

/-- A resource with nothing below it. -/
def leaf (key value : String) (parameters : Parameters) : Resource := ⟨⟨key, value⟩, parameters, []⟩

def segment : Resource → Segment
  | mk segment _ _ => segment

def children : Resource → List Resource
  | mk _ _ children => children

mutual

/-- The commands that add a resource: its own, then those of the resources below it. -/
def commands (owner : Address) : Resource → List Command
  | mk ⟨key, value⟩ parameters children =>
    ⟨owner.append key value, parameters⟩ :: commandsOfAll (owner.append key value) children

def commandsOfAll (owner : Address) : List Resource → List Command
  | [] => []
  | r :: rs => r.commands owner ++ commandsOfAll owner rs

end

@[simp] theorem commandsOfAll_nil (owner : Address) : commandsOfAll owner [] = [] := rfl

@[simp] theorem commandsOfAll_cons (owner : Address) (r : Resource) (rs : List Resource) :
    commandsOfAll owner (r :: rs) = r.commands owner ++ commandsOfAll owner rs := rfl

theorem commandsOfAll_append (owner : Address) (rs rs' : List Resource) :
    commandsOfAll owner (rs ++ rs') = commandsOfAll owner rs ++ commandsOfAll owner rs' := by
  induction rs with
  | nil => rfl
  | cons r rs ih =>
    rw [List.cons_append, commandsOfAll_cons, ih, commandsOfAll_cons, List.append_assoc]

theorem commandsOfAll_flatMap (owner : Address) (f : α → List Resource) (xs : List α) :
    commandsOfAll owner (xs.flatMap f) = xs.flatMap fun x => commandsOfAll owner (f x) := by
  induction xs with
  | nil => rfl
  | cons x xs ih => rw [List.flatMap_cons, commandsOfAll_append, ih, List.flatMap_cons]

theorem commandsOfAll_map (owner : Address) (f : α → Resource) (xs : List α) :
    commandsOfAll owner (xs.map f) = xs.flatMap fun x => (f x).commands owner := by
  induction xs with
  | nil => rfl
  | cons x xs ih => rw [List.map_cons, commandsOfAll_cons, ih, List.flatMap_cons]

@[simp] theorem commands_leaf (owner : Address) (key value : String) (ps : Parameters) :
    (leaf key value ps).commands owner = [⟨owner.append key value, ps⟩] := rfl

end Resource

end ManagementScript
