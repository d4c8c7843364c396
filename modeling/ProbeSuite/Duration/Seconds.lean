import ProbeSuite.Duration
import ProbeSuite.Binary64.Shortest

/-!
# A duration in fractional seconds

`Duration.seconds` is the binary64 number of seconds: the nanoseconds beyond the whole seconds are divided
by `10 ^ 9`, the whole seconds are added, and each step rounds. `Duration.secondsText` is its shortest
decimal, without an exponent.
-/

namespace ProbeSuite.Duration

/-- The seconds as a binary64 number. -/
def seconds (d : Duration) : Binary64 :=
  (Binary64.ofNat d.secs).add ((Binary64.ofNat d.subsecNanos).div (Binary64.ofNat nanosPerSec))

def secondsText (d : Duration) : String := String.ofList d.seconds.text

end ProbeSuite.Duration
