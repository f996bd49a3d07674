/-!
Instants of time and their text by the calendar of universal time. Days are counted from the first of
March of year 0, so that a leap day is the last day of its year.
-/

namespace ManagementScript

/-- Seconds since the beginning of 1970, and the nanoseconds after that. A leap second has the seconds
of the one before it and a thousand million nanoseconds more. -/
structure Instant where
  seconds : Int
  nanoseconds : Nat
deriving DecidableEq, Repr

/-- A day of the calendar; years before the first are zero and below. -/
structure Date where
  year : Int
  month : Nat
  day : Nat
deriving DecidableEq, Repr

namespace Date

/-- The days of four hundred years, after which the calendar repeats. -/
def daysOfEra : Nat := 146097

/-- The days from the first of March of year 0 to the beginning of 1970. -/
def daysBeforeEpoch : Nat := 719468

/-- How many years of an era end before its day `n`, counted from zero. -/
def yearOfEra (n : Nat) : Nat :=
  (n - n / 1460 + n / 36524 - n / 146096) / 365

/-- The date that lies the given number of days after the first of January 1970. -/
def ofDays (days : Int) : Date :=
  let days := days + daysBeforeEpoch
  let dayOfEra := (days % daysOfEra).toNat
  let years := yearOfEra dayOfEra
  let dayOfYear := dayOfEra - (365 * years + years / 4 - years / 100)
  let march := (5 * dayOfYear + 2) / 153
  let day := dayOfYear - (153 * march + 2) / 5 + 1
  let month := if march < 10 then march + 3 else march - 9
  let year := days / daysOfEra * 400 + years
  ⟨if month ≤ 2 then year + 1 else year, month, day⟩

end Date

namespace Instant

/-- A number with zeros in front up to a width. -/
def padded (width n : Nat) : String :=
  let digits := Nat.toDigits 10 n
  String.ofList (List.replicate (width - digits.length) '0' ++ digits)

/-- Years of more or less than four digits carry a sign. -/
def yearText (year : Int) : String :=
  if year < 0 then "-" ++ padded 4 year.natAbs
  else if 9999 < year then "+" ++ padded 4 year.natAbs
  else padded 4 year.natAbs

/-- The fraction of a second in as many groups of three digits as it takes. -/
def fractionText (nanoseconds : Nat) : String :=
  if nanoseconds = 0 then ""
  else if nanoseconds % 1000000 = 0 then "." ++ padded 3 (nanoseconds / 1000000)
  else if nanoseconds % 1000 = 0 then "." ++ padded 6 (nanoseconds / 1000)
  else "." ++ padded 9 nanoseconds

protected def toString (t : Instant) : String :=
  let date := Date.ofDays (t.seconds / 86400)
  let second := (t.seconds % 86400).toNat
  let leap := t.nanoseconds / 1000000000
  let clock := s!"{padded 2 (second / 3600)}:{padded 2 (second / 60 % 60)}:{padded 2 (second % 60 + leap)}"
  s!"{yearText date.year}-{padded 2 date.month}-{padded 2 date.day}T{clock}{fractionText (t.nanoseconds % 1000000000)}Z"

instance : ToString Instant := ⟨Instant.toString⟩

end Instant

end ManagementScript
