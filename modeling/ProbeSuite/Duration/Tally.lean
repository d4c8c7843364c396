import ProbeSuite.Duration

/-!
# Sums of durations

Durations are added up in two words, one for the seconds and one for the nanoseconds beyond them. Whole seconds
among the nanoseconds are carried over when the word of the nanoseconds is full, and once more at the end. There
is no sum when the word of the seconds overflows.

* `Tally.amount` : the nanoseconds in the two words together;
* `Tally.add?` : a tally with one more duration;
* `Duration.sum?` : the sum of a list.
-/

namespace ProbeSuite

structure Tally where
  secs : UInt64
  nanos : UInt64

namespace Tally

def empty : Tally := ⟨0, 0⟩

def amount (t : Tally) : Nat := nanosPerSec * t.secs.toNat + t.nanos.toNat

/-- The tally with the whole seconds among its nanoseconds carried over. -/
def carry? (t : Tally) : Option Tally := do
  some ⟨← addWords? t.secs (t.nanos / 1000000000), t.nanos % 1000000000⟩

def add? (t : Tally) (d : Duration) : Option Tally := do
  let secs ← addWords? t.secs (UInt64.ofNat d.secs)
  match addWords? t.nanos (UInt64.ofNat d.subsecNanos) with
  | some nanos => some ⟨secs, nanos⟩
  | none => do
    let t ← carry? ⟨secs, t.nanos⟩
    some { t with nanos := t.nanos + UInt64.ofNat d.subsecNanos }

def total? (t : Tally) : Option Duration := do Duration.ofNanos? (← t.carry?).amount

end Tally

/-- The sum of a list of durations, from the left. -/
def Duration.sum? (ds : List Duration) : Option Duration := do (← ds.foldlM Tally.add? .empty).total?

end ProbeSuite
