import ProbeSuite.Binary64.Shortest
import ProbeSuite.Text.Characters

/-!
# Numbers that are visibly not integers

Messages about numbers with a fraction or an exponent show the shortest decimal in one of two ways.

* `Decimal.pointed` : plain digits, with `.0` after a whole number;
* `Decimal.scientific` : plain digits from `10 ^ -5` up to `10 ^ 16`, outside of which a single digit stands
  before the point and an exponent with its sign and at least two digits at the end.
-/

namespace ProbeSuite

namespace Decimal

def pointed (d : Decimal) : List Char :=
  let plain := d.positional
  if '.' ∈ plain then plain else plain ++ ['.', '0']

/-- The exponent of the leading digit. -/
def leading (d : Decimal) : Int := (Nat.toDigits 10 d.coefficient).length - 1 + d.exponent

/-- A leading digit, the others after a point, and a power of ten. -/
def exponential (d : Decimal) : List Char :=
  let mantissa :=
    match Nat.toDigits 10 d.coefficient with
    | [] => []
    | [c] => [c]
    | c :: cs => c :: '.' :: cs
  mantissa ++ 'e' :: (if d.leading < 0 then '-' else '+') :: Text.padded 2 d.leading.natAbs

/-- Plain digits for sizes that are read easily, an exponent for the others. -/
def scientific (d : Decimal) : List Char :=
  if d.coefficient = 0 ∨ (-5 ≤ d.leading ∧ d.leading ≤ 15) then d.pointed else d.exponential

end Decimal

end ProbeSuite
