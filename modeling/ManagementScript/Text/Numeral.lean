/-!
Whole numbers as they are written: numerals without a sign in a given base with an upper bound, and
signed decimal numerals.
-/

namespace ManagementScript.Text

/-- Why a numeral without a sign has no value. -/
inductive NumeralDefect where
  | empty
  | invalidDigit
  | tooLarge
deriving DecidableEq, Repr

namespace NumeralDefect

def message : NumeralDefect → String
  | empty => "cannot parse integer from empty string"
  | invalidDigit => "invalid digit found in string"
  | tooLarge => "number too large to fit in target type"

end NumeralDefect

/-- The value of an ASCII digit or letter as a digit of the given base, at most 36. -/
def digitValue? (base : Nat) (c : Char) : Option Nat :=
  let value :=
    if c.isDigit then c.toNat - '0'.toNat
    else if c.isLower then c.toNat - 'a'.toNat + 10
    else if c.isUpper then c.toNat - 'A'.toNat + 10
    else base
  if value < base then some value else none

/-- Reads further digits behind `value`. The first digit that is invalid or leads above `greatest`
decides. -/
def digitsFrom (base greatest : Nat) (value : Nat) : List Char → Except NumeralDefect Nat
  | [] => .ok value
  | c :: cs =>
    match digitValue? base c with
    | none => .error .invalidDigit
    | some d =>
      if greatest < value * base + d then .error .tooLarge
      else digitsFrom base greatest (value * base + d) cs

/-- The value of a nonempty numeral without a sign. -/
def readNumeral (base greatest : Nat) : List Char → Except NumeralDefect Nat
  | [] => .error .empty
  | cs => digitsFrom base greatest 0 cs

/-- The value of a nonempty run of decimal digits, however long. -/
def decimal? (cs : List Char) : Option Nat :=
  if cs.isEmpty || cs.any (!·.isDigit) then none
  else some (cs.foldl (fun n c => n * 10 + (c.toNat - '0'.toNat)) 0)

/-- The value of a decimal numeral with at most one leading sign. -/
def signedDecimal? : List Char → Option Int
  | '-' :: cs => (decimal? cs).map fun n => -Int.ofNat n
  | '+' :: cs => (decimal? cs).map Int.ofNat
  | cs => (decimal? cs).map Int.ofNat

end ManagementScript.Text
