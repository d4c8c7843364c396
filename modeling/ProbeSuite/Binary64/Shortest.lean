import ProbeSuite.Binary64

/-!
# Shortest decimals

`Binary64.shortest x` is the decimal with the fewest digits that rounds to `x`, and of those the nearest to
`x`. A decimal rounds to `x` when it lies between the midpoints to the neighbours of `x`; the midpoints
themselves count when the significand is even. The search goes down the powers of ten and stops at the first
one with a multiple in that interval. If `x` is right between two of them, a `Tie` decides.

* `Decimal.positional` : plain digits with at most one point and no exponent;
* `Binary64.text` : the shortest decimal of a number, written positionally.
-/

namespace ProbeSuite

/-- The number `coefficient * 10 ^ exponent`. -/
structure Decimal where
  coefficient : Nat
  exponent : Int
  deriving DecidableEq

/-- Plain digits: zeros fill up to the point on either side, and no point stands at the end. -/
def Decimal.positional (d : Decimal) : List Char :=
  let digits := Nat.toDigits 10 d.coefficient
  let places := (-d.exponent).toNat
  if places = 0 then digits ++ List.replicate d.exponent.toNat '0'
  else if places < digits.length then
    digits.take (digits.length - places) ++ '.' :: digits.drop (digits.length - places)
  else '0' :: '.' :: (List.replicate (places - digits.length) '0' ++ digits)

/-- Which of two multiples stands for a number right between them: the greater, or the even one. -/
inductive Tie where
  | up
  | even

/-- The multiple for a number right between `c` and the next one. -/
def Tie.choose : Tie → Nat → Nat
  | .up, c => c + 1
  | .even, c => c + c % 2

namespace Binary64

/-- The midpoint to the neighbour above, in units of `2 ^ (exponent - 2)`. -/
def upperQuarters (x : Binary64) : Nat := 4 * x.significand + 2

/-- The midpoint to the neighbour below, in units of `2 ^ (exponent - 2)`. Below a power of two the
neighbours lie half as far apart. -/
def lowerQuarters (x : Binary64) : Nat :=
  if x.significand = 2 ^ 52 ∧ leastExponent < x.exponent then 4 * x.significand - 1 else 4 * x.significand - 2

/-- A quarter unit of `x` is `quarterNum / quarterDen` times `10 ^ t`. -/
def quarterNum (x : Binary64) (t : Int) : Nat := 2 ^ (x.exponent - 2).toNat * 10 ^ (-t).toNat

def quarterDen (x : Binary64) (t : Int) : Nat := 2 ^ (2 - x.exponent).toNat * 10 ^ t.toNat

/-- Whether `c * 10 ^ t` rounds to `x`. -/
def rounds (x : Binary64) (c : Nat) (t : Int) : Bool :=
  let low := x.lowerQuarters * x.quarterNum t
  let mid := c * x.quarterDen t
  let high := x.upperQuarters * x.quarterNum t
  if x.significand % 2 = 0 then low ≤ mid ∧ mid ≤ high else low < mid ∧ mid < high

/-- The multiple of `10 ^ t` nearest to `x` among those that round to `x`. -/
def nearest? (x : Binary64) (tie : Tie) (t : Int) : Option Nat :=
  let exact := 4 * x.significand * x.quarterNum t
  let unit := x.quarterDen t
  let c := exact / unit
  match x.rounds c t, x.rounds (c + 1) t with
  | true, true =>
    let below := exact - c * unit
    let above := (c + 1) * unit - exact
    if below < above then some c else if above < below then some (c + 1) else some (tie.choose c)
  | true, false => some c
  | false, true => some (c + 1)
  | false, false => none

/-- A power of ten above `x`. -/
def topPower (x : Binary64) : Int := ((x.significand.log2 + 2 + x.exponent) * 30103).fdiv 100000 + 1

/-- The first power of ten from `t` down, `steps` of them at most, with a multiple that rounds to `x`. -/
def search (x : Binary64) (tie : Tie) : (steps : Nat) → (t : Int) → Decimal
  | 0, t => ⟨4 * x.significand * x.quarterNum t / x.quarterDen t, t⟩
  | steps + 1, t =>
    match x.nearest? tie t with
    | some c => ⟨c, t⟩
    | none => search x tie steps (t - 1)

/-- The decimal with the fewest digits that rounds to `x`. Seventeen digits always suffice. -/
def shortest (x : Binary64) (tie : Tie) : Decimal := if x.significand = 0 then ⟨0, 0⟩ else x.search tie 24 x.topPower

/-- The shortest decimal, the greater of two, without an exponent. -/
def text (x : Binary64) : List Char := (x.shortest .up).positional

end Binary64

end ProbeSuite
