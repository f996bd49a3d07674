import Std.Data.HashSet
import ManagementScript.Grammar.ElementName
import ManagementScript.Compilation.Error

/-! What was seen in a scope already: child elements that may occur once or exclude each other, and
names that must differ. -/

namespace ManagementScript

/-- A set of elements: bit `i` of the word stands for the element at place `i` of the vocabulary. -/
structure ElementSet where
  bits : UInt64
deriving DecidableEq, Repr

namespace ElementSet

def empty : ElementSet := ⟨0⟩

/-- The word that has the bit of an element only. -/
def bitOf (element : ElementName) : UInt64 := 1 <<< element.index.toUInt64

def contains (s : ElementSet) (element : ElementName) : Bool := s.bits &&& bitOf element != 0

def insert (s : ElementSet) (element : ElementName) : ElementSet := ⟨s.bits ||| bitOf element⟩

def ofList (elements : List ElementName) : ElementSet := elements.foldl insert empty

def intersects (s t : ElementSet) : Bool := s.bits &&& t.bits != 0

def isEmpty (s : ElementSet) : Bool := s.bits == 0

/-- The place of an element is one of the word, so that its bit is not lost. -/
theorem toNat_bitOf (element : ElementName) : (bitOf element).toNat = 1 <<< element.index := by
  have hplace : element.index.toUInt64.toNat = element.index :=
    UInt64.toNat_ofNat_of_lt' (Nat.lt_trans element.index_lt (by decide))
  have hword : 1 <<< element.index < 2 ^ 64 := by
    rw [Nat.one_shiftLeft]
    exact Nat.pow_lt_pow_right (by decide) element.index_lt
  rw [bitOf, UInt64.toNat_shiftLeft, hplace, Nat.mod_eq_of_lt element.index_lt, UInt64.toNat_one,
    Nat.mod_eq_of_lt hword]

theorem testBit_bitOf (element : ElementName) (i : Nat) :
    (bitOf element).toNat.testBit i = decide (element.index = i) := by
  rw [toNat_bitOf, Nat.one_shiftLeft, Nat.testBit_two_pow]

/-- Two words overlap in a bit that both have. -/
theorem and_bne_zero_iff {v w : UInt64} :
    (v &&& w != 0) = true ↔ ∃ i, v.toNat.testBit i = true ∧ w.toNat.testBit i = true := by
  rw [bne_iff_ne, ne_eq, ← UInt64.toNat_inj, UInt64.toNat_and, UInt64.toNat_zero]
  apply Iff.intro
  · intro h
    obtain ⟨i, hi⟩ := Nat.exists_testBit_of_ne_zero h
    exact ⟨i, Bool.and_eq_true_iff.1 (Nat.testBit_and .. ▸ hi)⟩
  · rintro ⟨i, hv, hw⟩ h
    have hi := Nat.testBit_and v.toNat w.toNat i
    rw [h, hv, hw, Nat.zero_testBit] at hi
    cases hi

theorem contains_eq_testBit (s : ElementSet) (element : ElementName) :
    s.contains element = s.bits.toNat.testBit element.index := by
  rw [Bool.eq_iff_iff, contains, and_bne_zero_iff]
  simp [testBit_bitOf]

theorem contains_empty (element : ElementName) : empty.contains element = false := by
  rw [contains_eq_testBit]
  exact Nat.zero_testBit _

theorem contains_insert (s : ElementSet) (a b : ElementName) :
    (s.insert a).contains b = (s.contains b || decide (a = b)) := by
  have hindex : (a.index = b.index) = (a = b) :=
    propext ⟨ElementName.index_injective, congrArg _⟩
  rw [contains_eq_testBit, contains_eq_testBit, insert, UInt64.toNat_or, Nat.testBit_or, testBit_bitOf]
  simp only [hindex]

/-- Records an element that may occur once. -/
def requireOnce (s : ElementSet) (element : ElementName) (position : Position) :
    Except CompilationError ElementSet :=
  if s.contains element then .error (.duplicateElement element.localName position)
  else .ok (s.insert element)

/-- Records one element of a group that exclude each other. -/
def requireExclusive (s : ElementSet) (element : ElementName) (group : List ElementName)
    (position : Position) : Except CompilationError ElementSet :=
  if s.intersects (.ofList group) then
    .error (.exclusiveViolation element.localName (group.map (·.localName)) position)
  else .ok (s.insert element)

end ElementSet

/-- The names that are taken in a scope. -/
structure NameSet where
  names : Std.HashSet String

namespace NameSet

def empty : NameSet := ⟨{}⟩

def contains (s : NameSet) (name : String) : Bool := s.names.contains name

/-- Reserves a name for an element; a name that is taken is an error. -/
def reserve (s : NameSet) (element : ElementName) (name : String) (position : Position) :
    Except CompilationError NameSet :=
  if s.contains name then .error (.duplicateName element.localName name position)
  else .ok ⟨s.names.insert name⟩

end NameSet

end ManagementScript
