/-! Sets of characters, given by ranges of their code points. -/

namespace ManagementScript.Text

/-- The characters whose code points lie in closed ranges. -/
structure CharSet where
  ranges : List (Nat × Nat)
deriving Repr

namespace CharSet

def contains (s : CharSet) (c : Char) : Bool :=
  s.ranges.any fun (low, high) => low ≤ c.toNat && c.toNat ≤ high

/-- Whether each range ends before the next one begins. -/
def areAscending : List (Nat × Nat) → Bool
  | (low, high) :: (next, last) :: ranges =>
    low ≤ high && high + 1 < next && areAscending ((next, last) :: ranges)
  | [(low, high)] => low ≤ high
  | [] => true

def isAscending (s : CharSet) : Bool := areAscending s.ranges

/-- The number of code points. -/
def size (s : CharSet) : Nat := s.ranges.foldl (fun n (low, high) => n + (high + 1 - low)) 0

theorem contains_iff {s : CharSet} {c : Char} :
    s.contains c = true ↔ ∃ range ∈ s.ranges, range.1 ≤ c.toNat ∧ c.toNat ≤ range.2 := by
  simp [contains]

end CharSet

end ManagementScript.Text
