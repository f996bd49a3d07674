/-! Places in a source text. -/

namespace ManagementScript

/-- A place in a source text. The offset counts bytes from zero; line and column count from one, the
column in bytes. -/
structure Position where
  offset : Nat
  line : Nat
  column : Nat
deriving DecidableEq, Repr, Inhabited

namespace Position

/-- The beginning of a text. -/
def start : Position := ⟨0, 1, 1⟩

/-- The place of a cursor that has not read anything. -/
def unread : Position := ⟨0, 0, 0⟩

protected def toString (p : Position) : String := s!"{p.line}:{p.column}"

instance : ToString Position := ⟨Position.toString⟩

end Position

end ManagementScript
