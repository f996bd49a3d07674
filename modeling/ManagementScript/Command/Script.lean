import ManagementScript.Command.Basic
import ManagementScript.Limits

/-! Scripts: commands in the order they are to be performed in. Commands are only ever added at the
end, and a script never grows over its limit. -/

namespace ManagementScript

/-- A script has no room for more commands than `max`. -/
structure CapacityError where
  max : Nat
deriving DecidableEq, Repr

def CapacityError.message (e : CapacityError) : String :=
  s!"Command list limit of {e.max} operations exceeded"

structure Script where
  commands : Array Command
deriving Repr, Inhabited

namespace Script

def empty : Script := ⟨#[]⟩

def size (s : Script) : Nat := s.commands.size

def isEmpty (s : Script) : Bool := s.commands.isEmpty

def toList (s : Script) : List Command := s.commands.toList

def get? (s : Script) (index : Nat) : Option Command := s.commands[index]?

def last? (s : Script) : Option Command := s.commands.back?

/-- Adds a command at the end. -/
@[inline]
def push (s : Script) (c : Command) : Except CapacityError Script :=
  if Limits.commands ≤ s.size then .error ⟨Limits.commands⟩ else .ok ⟨s.commands.push c⟩

/-- Adds all commands of `t` at the end, or none. -/
@[inline]
def extend (s t : Script) : Except CapacityError Script :=
  if Limits.commands < s.size + t.size then .error ⟨Limits.commands⟩
  else .ok ⟨s.commands ++ t.commands⟩

theorem push_eq_ok_iff {s t : Script} {c : Command} :
    s.push c = .ok t ↔ s.size < Limits.commands ∧ t.toList = s.toList ++ [c] := by
  obtain ⟨t⟩ := t
  by_cases h : Limits.commands ≤ s.size
  · simp [push, h, Nat.not_lt.2 h]
  · simp [push, h, Nat.not_le.1 h, toList, ← Array.toList_inj, eq_comm]

theorem extend_eq_ok_iff {s t u : Script} :
    s.extend t = .ok u ↔ s.size + t.size ≤ Limits.commands ∧ u.toList = s.toList ++ t.toList := by
  obtain ⟨u⟩ := u
  by_cases h : Limits.commands < s.size + t.size
  · simp [extend, h, Nat.not_le.2 h]
  · simp [extend, h, Nat.not_lt.1 h, toList, ← Array.toList_inj, eq_comm]

def toJson (s : Script) : Json := .array (s.toList.map (·.toJson))

end Script

end ManagementScript
