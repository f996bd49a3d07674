import ManagementScript.Text.Json

/-! Addresses of resources in the management tree. -/

namespace ManagementScript

/-- One step down the management tree. -/
structure Segment where
  key : String
  value : String
deriving DecidableEq, Repr

instance : ToString Segment := ⟨fun s => s!"{s.key}={s.value}"⟩

/-- The way from the root of the management tree to a resource. -/
structure Address where
  segments : List Segment
deriving DecidableEq, Repr

namespace Address

def root : Address := ⟨[]⟩

/-- The address one step further down. -/
def append (a : Address) (key value : String) : Address := ⟨a.segments ++ [⟨key, value⟩]⟩

/-- The address of `a` seen from the owner of its first step. -/
def prefixedBy (a owner : Address) : Address := ⟨owner.segments ++ a.segments⟩

def length (a : Address) : Nat := a.segments.length

def isRoot (a : Address) : Bool := a.segments.isEmpty

def last? (a : Address) : Option Segment := a.segments.getLast?

/-- Whether `a` is a proper ancestor of `b`. -/
def isStrictPrefixOf (a b : Address) : Bool :=
  a.length < b.length && b.segments.take a.length == a.segments

protected def toString (a : Address) : String :=
  if a.segments.isEmpty then "/"
  else a.segments.foldl (fun out s => s!"{out}/{s}") ""

instance : ToString Address := ⟨Address.toString⟩

def toJson (a : Address) : Json :=
  .array (a.segments.map fun s => .object [(s.key, .string s.value)])

theorem append_eq_prefixedBy (a : Address) (key value : String) :
    a.append key value = (root.append key value).prefixedBy a := rfl

theorem root_prefixedBy (a : Address) : root.prefixedBy a = a := by
  simp [root, prefixedBy]

theorem prefixedBy_root (a : Address) : a.prefixedBy root = a := rfl

theorem prefixedBy_assoc (a b c : Address) :
    a.prefixedBy (b.prefixedBy c) = (a.prefixedBy b).prefixedBy c := by
  simp [prefixedBy]

theorem length_prefixedBy (a owner : Address) :
    (a.prefixedBy owner).length = owner.length + a.length := by
  simp [prefixedBy, length]

theorem length_append (a : Address) (key value : String) :
    (a.append key value).length = a.length + 1 := by
  simp [append, length]

end Address

end ManagementScript
