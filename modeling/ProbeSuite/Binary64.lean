import ProbeSuite.Natural

/-!
# Non-negative binary64 numbers, exactly

A number is a significand times a power of two, so every operation is arithmetic of natural numbers:
compute the exact quotient, then round it once to the nearest number with 53 significant bits, a half going
to the even neighbour.

* `roundDiv n d` : `n / d`, rounded to a natural number;
* `Binary64.ofRatio n d` : `n / d`, rounded to 53 bits and to a multiple of `2 ^ leastExponent`;
* `Binary64.add`, `mul`, `div` : the exact result, rounded;
* `Binary64.isFinite` : exponents are unbounded above here, and this is the bound binary64 puts on them.
-/

namespace ProbeSuite

/-- `n / d` rounded to the nearest natural number, a half to the even neighbour. -/
def roundDiv (n d : Nat) : Nat :=
  let q := n / d
  let r := n % d
  if 2 * r < d then q else if d < 2 * r then q + 1 else q + q % 2

/-- The number `significand * 2 ^ exponent`. -/
structure Binary64 where
  significand : Nat
  exponent : Int
  deriving DecidableEq

namespace Binary64

/-- The exponent of the subnormal numbers. -/
def leastExponent : Int := -1074

def zero : Binary64 := ⟨0, leastExponent⟩

instance : Inhabited Binary64 := ⟨zero⟩

/-- The number is `num / den`. -/
def num (x : Binary64) : Nat := x.significand * 2 ^ x.exponent.toNat

def den (x : Binary64) : Nat := 2 ^ (-x.exponent).toNat

/-- `n / d / 2 ^ e`, rounded to a natural number. -/
def scaledDiv (n d : Nat) (e : Int) : Nat := roundDiv (n * 2 ^ (-e).toNat) (d * 2 ^ e.toNat)

/-- The exponent at which `n / d` has 53 significant bits, but no less than `leastExponent`. -/
def exponentOf (n d : Nat) : Int :=
  let e : Int := n.log2 - d.log2 - 53
  let top := e + 53
  let e := if d * 2 ^ top.toNat ≤ n * 2 ^ (-top).toNat then e + 1 else e
  max e leastExponent

/-- The nearest number to `n / d`. -/
def ofRatio (n d : Nat) : Binary64 :=
  if n = 0 then zero
  else
    let e := exponentOf n d
    let m := scaledDiv n d e
    if m = 2 ^ 53 then ⟨2 ^ 52, e + 1⟩ else ⟨m, e⟩

def ofNat (n : Nat) : Binary64 := ofRatio n 1

def add (x y : Binary64) : Binary64 := ofRatio (x.num * y.den + y.num * x.den) (x.den * y.den)

def mul (x y : Binary64) : Binary64 := ofRatio (x.num * y.num) (x.den * y.den)

def div (x y : Binary64) : Binary64 := ofRatio (x.num * y.den) (x.den * y.num)

/-- Whether binary64 has the number, and not infinity in its place. -/
def isFinite (x : Binary64) : Bool := x.exponent ≤ 971

end Binary64

end ProbeSuite
