import ProbeSuite.Duration

/-!
# A duration in words of time

`Duration.unitsText` splits the whole microseconds (modulo `2^64`) greedily into years, months, days and so
on, leaves out what is zero, and joins the rest with single spaces. A year is 365.25 days and a month a
twelfth of it, rounded to 30.44 days.

* `TimeUnit.all` : the units, longest first;
* `TimeUnit.split` : how many of each unit a number of microseconds holds.
-/

namespace ProbeSuite

/-- A unit of time: its length, and its name after the count one and after any other. -/
structure TimeUnit where
  micros : Nat
  one : String
  many : String

namespace TimeUnit

def all : List TimeUnit := [
  ⟨31557600000000, "year", "years"⟩,
  ⟨2630016000000, "month", "months"⟩,
  ⟨86400000000, "day", "days"⟩,
  ⟨3600000000, "h", "h"⟩,
  ⟨60000000, "m", "m"⟩,
  ⟨1000000, "s", "s"⟩,
  ⟨1000, "ms", "ms"⟩,
  ⟨1, "us", "us"⟩]

/-- The count of each unit: as many of the first as fit, then the rest in the units after it. -/
def split : List TimeUnit → Nat → List (Nat × TimeUnit)
  | [], _ => []
  | u :: us, micros => (micros / u.micros, u) :: split us (micros % u.micros)

/-- A count and its unit, without a space between them. -/
def part (count : Nat) (u : TimeUnit) : String := toString count ++ if count = 1 then u.one else u.many

end TimeUnit

/-- The time parts that are not zero, or `0s` if there are none. -/
def Duration.unitsText (d : Duration) : String :=
  if d.wordMicros = 0 then "0s"
  else
    let parts := (TimeUnit.split TimeUnit.all d.wordMicros).filter (·.1 ≠ 0)
    " ".intercalate (parts.map fun p => TimeUnit.part p.1 p.2)

end ProbeSuite
