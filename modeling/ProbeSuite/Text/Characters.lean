import ProbeSuite.Natural

/-!
# Lists of characters

* `Text.byteLength` : the length of their text in UTF-8;
* `Text.hexDigit?` : the value of a digit in base 16, in either case;
* `Text.padded` : a number with zeros in front.
-/

namespace ProbeSuite.Text

def byteLength (cs : List Char) : Nat := (cs.map Char.utf8Size).sum

def hexDigit? (c : Char) : Option Nat :=
  if '0' ≤ c ∧ c ≤ '9' then some (c.toNat - 48)
  else if 'a' ≤ c ∧ c ≤ 'f' then some (c.toNat - 87)
  else if 'A' ≤ c ∧ c ≤ 'F' then some (c.toNat - 55)
  else none

/-- A number in at least `width` digits. -/
def padded (width n : Nat) : List Char :=
  let ds := Nat.toDigits 10 n
  List.replicate (width - ds.length) '0' ++ ds

end ProbeSuite.Text
