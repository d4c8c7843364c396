import ProbeSuite.Calendar
import ProbeSuite.Text.Characters

/-!
# Timestamps

A timestamp is a second of coordinated universal time and a fraction of it in nanoseconds. In a leap
second the fraction goes on past one second, which only the last second of a minute may do.

* `Timestamp.ofParts?` : the timestamp of its two parts, if they make one;
* `Timestamp.date`, `hour`, `minute`, `second`, `fraction` : how a clock shows it, second 60 included;
* `Timestamp.stored` : its text in a report, with 0, 3, 6 or 9 digits of fraction;
* `Timestamp.shown` : its text in a summary, to the second.
-/

namespace ProbeSuite

/-- The first second of the year -262143. -/
abbrev firstSecond : Int := -8334601228800

/-- The last second of the year 262142. -/
abbrev lastSecond : Int := 8210266876799

/-- A point in time: seconds since 1970-01-01T00:00:00Z, and nanoseconds. -/
@[ext] structure Timestamp where
  seconds : Int
  nanos : Nat
  inRange : firstSecond ≤ seconds ∧ seconds ≤ lastSecond
  nanos_lt : nanos < 1000000000 ∨ (nanos < 2000000000 ∧ seconds % 60 = 59)
  deriving DecidableEq

namespace Timestamp

def ofParts? (seconds : Int) (nanos : Nat) : Option Timestamp :=
  if h : (firstSecond ≤ seconds ∧ seconds ≤ lastSecond) ∧
      (nanos < 1000000000 ∨ (nanos < 2000000000 ∧ seconds % 60 = 59)) then
    some ⟨seconds, nanos, h.1, h.2⟩
  else none

def epoch : Timestamp := ⟨0, 0, by decide, by decide⟩

instance : Inhabited Timestamp := ⟨epoch⟩

/-! ## What a clock shows -/

def date (t : Timestamp) : Date := Date.ofDays (t.seconds / 86400)

def secondOfDay (t : Timestamp) : Nat := (t.seconds % 86400).toNat

def hour (t : Timestamp) : Nat := t.secondOfDay / 3600

def minute (t : Timestamp) : Nat := t.secondOfDay / 60 % 60

/-- The second of the minute; a leap second is second 60. -/
def second (t : Timestamp) : Nat := t.secondOfDay % 60 + t.nanos / 1000000000

def fraction (t : Timestamp) : Nat := t.nanos % 1000000000

/-! ## Texts -/

open Text (padded)

/-- Four digits at least, with a sign on every year outside 0 to 9999. -/
def yearText (year : Int) : List Char :=
  if 0 ≤ year ∧ year ≤ 9999 then padded 4 year.toNat
  else (if year < 0 then '-' else '+') :: padded 4 year.natAbs

def dateText (d : Date) : List Char := yearText d.year ++ '-' :: (padded 2 d.month ++ '-' :: padded 2 d.day)

def clockText (t : Timestamp) : List Char :=
  padded 2 t.hour ++ ':' :: (padded 2 t.minute ++ ':' :: padded 2 t.second)

/-- The shortest of 0, 3, 6 and 9 digits that is exact. -/
def fractionText (nanos : Nat) : List Char :=
  if nanos = 0 then []
  else if nanos % 1000000 = 0 then '.' :: padded 3 (nanos / 1000000)
  else if nanos % 1000 = 0 then '.' :: padded 6 (nanos / 1000)
  else '.' :: padded 9 nanos

/-- The text in a report. -/
def stored (t : Timestamp) : List Char :=
  dateText t.date ++ 'T' :: (t.clockText ++ (fractionText t.fraction ++ ['Z']))

/-- The text in a summary. -/
def shown (t : Timestamp) : List Char :=
  dateText t.date ++ ' ' :: (t.clockText ++ [' ', 'U', 'T', 'C'])

end Timestamp

end ProbeSuite
