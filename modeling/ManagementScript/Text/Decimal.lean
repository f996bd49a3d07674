/-! Numbers as decimals with a fixed number of places, rounded to the nearest one. -/

namespace ManagementScript.Text

/-- The whole number nearest to `num / den`; a half goes to the even neighbour. -/
def nearest (num den : Nat) : Nat :=
  let floor := num / den
  let twice := 2 * (num % den)
  if twice < den then floor
  else if den < twice then floor + 1
  else floor + floor % 2

/-- `n` units of the last of the given number of places. -/
def fixedPoint (places n : Nat) : String :=
  let digits := Nat.toDigits 10 (n % Nat.pow 10 places)
  let zeros := List.replicate (places - digits.length) '0'
  s!"{n / Nat.pow 10 places}.{String.ofList (zeros ++ digits)}"

/-- `num / den` with the given number of places. -/
def decimal (places num den : Nat) : String := fixedPoint places (nearest (num * Nat.pow 10 places) den)

/-- The number nearest to `n` among those with at most 53 binary digits in front of zeros. -/
def toBinary53 (n : Nat) : Nat :=
  let unit := Nat.pow 2 (n.log2 - 52)
  nearest n unit * unit

theorem toBinary53_of_lt {n : Nat} (h : n < Nat.pow 2 53) : toBinary53 n = n := by
  have hlog : n.log2 - 52 = 0 := by
    by_cases hn : n = 0
    · subst hn; rfl
    · have := (Nat.log2_lt hn).2 h
      omega
  simp [toBinary53, hlog, nearest, Nat.mod_one]

end ManagementScript.Text
