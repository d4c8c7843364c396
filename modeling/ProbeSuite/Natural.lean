/-!
# Natural numbers and words

Powers and sums of numbers are those of the core library, also next to a library that has them as instances of
something more general: a definition then reads the same in every module. A word has 64 bits.
-/

namespace ProbeSuite

/-- The power that the numbers come with. -/
@[default_instance high]
instance (priority := high) powNat {α : Type} [NatPow α] : Pow α Nat := instPowNat

/-- The sum of no numbers. -/
instance (priority := high) zeroNat : Zero Nat := ⟨0⟩

/-- The sum of two words, if it is a word again. -/
def addWords? (a b : UInt64) : Option UInt64 := if a.toNat + b.toNat < 2 ^ 64 then some (a + b) else none

end ProbeSuite
