import ProbeSuite.Natural

/-!
# The proleptic Gregorian calendar

Days are counted from 1970-01-01, day 0, in both directions; years include 0 and negative ones.

* `Date.toDays` : the day of a date;
* `Date.ofDays` : the date of a day;
* `Date.isValid` : whether the month and the day exist.
-/

namespace ProbeSuite

/-- A year, a month from 1 and a day from 1. -/
structure Date where
  year : Int
  month : Nat
  day : Nat
  deriving DecidableEq

namespace Date

def isLeap (year : Int) : Bool := year % 4 = 0 && (year % 100 ≠ 0 || year % 400 = 0)

def monthLengths (year : Int) : List Nat :=
  [31, if isLeap year then 29 else 28, 31, 30, 31, 30, 31, 31, 30, 31, 30, 31]

/-- The days from 0001-01-01 to 1970-01-01. -/
def epochOffset : Int := 719162

/-- The days from 0001-01-01 to the first day of the year. -/
def daysBeforeYear (year : Int) : Int :=
  let y := year - 1
  365 * y + y / 4 - y / 100 + y / 400

def toDays (d : Date) : Int :=
  daysBeforeYear d.year - epochOffset + (((monthLengths d.year).take (d.month - 1)).sum + d.day : Nat) - 1

/-- The year that holds the day `n` days after 0001-01-01. The mean length of a year gives it up to one. -/
def yearOf (n : Int) : Int :=
  let y := 400 * n / 146097 + 1
  if n < daysBeforeYear y then y - 1 else if daysBeforeYear (y + 1) ≤ n then y + 1 else y

/-- The month and the day in it, both from 1, of a day of the year counted from 0; `month` is the first
of the months whose lengths are given. -/
def monthDay : (lengths : List Nat) → (month dayOfYear : Nat) → Nat × Nat
  | [], month, n => (month, n + 1)
  | l :: ls, month, n => if n < l then (month, n + 1) else monthDay ls (month + 1) (n - l)

def ofDays (days : Int) : Date :=
  let n := days + epochOffset
  let year := yearOf n
  let (month, day) := monthDay (monthLengths year) 1 (n - daysBeforeYear year).toNat
  ⟨year, month, day⟩

def isValid (d : Date) : Bool :=
  match (monthLengths d.year)[d.month - 1]? with
  | some l => 1 ≤ d.month && 1 ≤ d.day && d.day ≤ l
  | none => false

end Date

end ProbeSuite
