import Mathlib.Algebra.BigOperators.Group.List.Basic
import ProbeSuite.Duration.Tally

/-!
# Sums of durations

* `addWords?_eq_some_iff`, `addWords?_eq_none_iff` : sums of words;
* `Tally.carry?_spec`, `Tally.add?_spec`, `Tally.total?_eq` : one step of a sum, and its end;
* `Duration.sum?_eq` : a list has the exact sum of its nanoseconds, if that is a duration.
-/

namespace ProbeSuite

theorem toNat_add_of_lt {a b : UInt64} (h : a.toNat + b.toNat < 2 ^ 64) : (a + b).toNat = a.toNat + b.toNat := by
  rw [UInt64.toNat_add, Nat.mod_eq_of_lt h]

theorem addWords?_eq_some_iff {a b c : UInt64} : addWords? a b = some c ↔ c.toNat = a.toNat + b.toNat := by
  have hc := c.toNat_lt
  unfold addWords?
  split
  · next hlt =>
    have hsum : (a + b).toNat = a.toNat + b.toNat := toNat_add_of_lt hlt
    rw [Option.some.injEq, ← hsum, ← UInt64.toNat_inj]
    exact eq_comm
  · next hge => exact iff_of_false nofun (by omega)

theorem addWords?_eq_none_iff {a b : UInt64} : addWords? a b = none ↔ 2 ^ 64 ≤ a.toNat + b.toNat := by
  unfold addWords?
  split
  · exact iff_of_false nofun (by omega)
  · exact iff_of_true rfl (by omega)

namespace Duration

theorem ofNanos?_eq_some_iff {n : Nat} {d : Duration} : ofNanos? n = some d ↔ d.nanos = n := by
  have hd := d.nanos_lt
  unfold ofNanos?
  split
  · rw [Option.some.injEq, Duration.ext_iff]
    exact eq_comm
  · exact iff_of_false nofun (by omega)

theorem ofNanos?_eq_none_iff {n : Nat} : ofNanos? n = none ↔ 2 ^ 64 * nanosPerSec ≤ n := by
  unfold ofNanos?
  split
  · exact iff_of_false nofun (by omega)
  · exact iff_of_true rfl (by omega)

/-- The parts of a duration, as words. -/
theorem toNat_parts (d : Duration) :
    nanosPerSec * (UInt64.ofNat d.secs).toNat + (UInt64.ofNat d.subsecNanos).toNat = d.nanos ∧
      (UInt64.ofNat d.subsecNanos).toNat < nanosPerSec := by
  have hsecs : (UInt64.ofNat d.secs).toNat = d.secs := UInt64.toNat_ofNat_of_lt' d.secs_lt
  have hsubsec : (UInt64.ofNat d.subsecNanos).toNat = d.subsecNanos :=
    UInt64.toNat_ofNat_of_lt' (Nat.lt_trans d.subsecNanos_lt (by decide))
  rw [hsecs, hsubsec]
  exact ⟨Nat.div_add_mod d.nanos nanosPerSec, d.subsecNanos_lt⟩

end Duration

namespace Tally

variable {t t' : Tally} {d : Duration}

/-- Carrying over changes nothing of the amount. It fails only if the seconds do not fit a word. -/
theorem carry?_spec (t : Tally) :
    (∀ t', t.carry? = some t' → t'.amount = t.amount ∧ t'.nanos.toNat < nanosPerSec) ∧
      (t.carry? = none → 2 ^ 64 * nanosPerSec ≤ t.amount) := by
  have hquotient : (t.nanos / 1000000000).toNat = t.nanos.toNat / nanosPerSec := UInt64.toNat_div _ _
  have hrest : (t.nanos % 1000000000).toNat = t.nanos.toNat % nanosPerSec := UInt64.toNat_mod _ _
  have hnanos := Nat.div_add_mod t.nanos.toNat nanosPerSec
  have hlt : t.nanos.toNat % nanosPerSec < nanosPerSec := Nat.mod_lt _ (by decide)
  unfold carry?
  cases hsecs : addWords? t.secs (t.nanos / 1000000000) with
  | none =>
    rw [addWords?_eq_none_iff, hquotient] at hsecs
    refine ⟨nofun, fun _ => ?_⟩
    simp only [amount, nanosPerSec] at *
    omega
  | some secs =>
    rw [addWords?_eq_some_iff, hquotient] at hsecs
    refine ⟨?_, nofun⟩
    rintro t' ⟨⟩
    simp only [amount, hrest, nanosPerSec] at *
    omega

/-- One more duration adds its nanoseconds to the amount. It fails only if the seconds do not fit a word. -/
theorem add?_spec (t : Tally) (d : Duration) :
    (∀ t', t.add? d = some t' → t'.amount = t.amount + d.nanos) ∧
      (t.add? d = none → 2 ^ 64 * nanosPerSec ≤ t.amount + d.nanos) := by
  obtain ⟨hparts, hsubsec⟩ := d.toNat_parts
  unfold add?
  generalize UInt64.ofNat d.secs = s, UInt64.ofNat d.subsecNanos = n at *
  cases hsecs : addWords? t.secs s with
  | none =>
    rw [addWords?_eq_none_iff] at hsecs
    refine ⟨nofun, fun _ => ?_⟩
    simp only [amount, nanosPerSec] at *
    omega
  | some secs =>
    rw [addWords?_eq_some_iff] at hsecs
    rw [Option.bind_eq_bind, Option.bind_some]
    cases hnanos : addWords? t.nanos n with
    | some nanos =>
      rw [addWords?_eq_some_iff] at hnanos
      refine ⟨?_, nofun⟩
      rintro t' ⟨⟩
      simp only [amount, nanosPerSec] at *
      omega
    | none =>
      -- the word of the nanoseconds is full: its seconds are carried over, and there is room again
      obtain ⟨hsome, hnone⟩ := carry?_spec ⟨secs, t.nanos⟩
      dsimp only
      cases hcarry : carry? ⟨secs, t.nanos⟩ with
      | none =>
        have hlarge := hnone hcarry
        refine ⟨nofun, fun _ => ?_⟩
        simp only [amount, nanosPerSec] at *
        omega
      | some carried =>
        obtain ⟨hamount, hlt⟩ := hsome carried hcarry
        refine ⟨?_, nofun⟩
        rintro t' ⟨⟩
        simp only [amount, nanosPerSec] at *
        have hsum : (carried.nanos + n).toNat = carried.nanos.toNat + n.toNat := toNat_add_of_lt (by omega)
        rw [hsum]
        omega

theorem total?_eq (t : Tally) : t.total? = Duration.ofNanos? t.amount := by
  obtain ⟨hsome, hnone⟩ := carry?_spec t
  unfold total?
  cases hcarry : t.carry? with
  | none => exact (Duration.ofNanos?_eq_none_iff.2 (hnone hcarry)).symm
  | some carried =>
    rw [← (hsome carried hcarry).1]
    rfl

/-- A tally to which durations are added comes to their exact sum, if that is a duration. -/
theorem total?_foldlM (ds : List Duration) (t : Tally) :
    (ds.foldlM add? t).bind total? = Duration.ofNanos? (t.amount + (ds.map Duration.nanos).sum) := by
  induction ds generalizing t with
  | nil => exact total?_eq t
  | cons d ds ih =>
    obtain ⟨hsome, hnone⟩ := add?_spec t d
    rw [List.foldlM_cons, List.map_cons, List.sum_cons, ← Nat.add_assoc]
    cases hadd : t.add? d with
    | none =>
      have hlarge := hnone hadd
      exact (Duration.ofNanos?_eq_none_iff.2 (by omega)).symm
    | some t' =>
      rw [← hsome t' hadd]
      exact ih t'

end Tally

/-- **A list has the exact sum of its nanoseconds**, if that is a duration. -/
theorem Duration.sum?_eq (ds : List Duration) : sum? ds = ofNanos? (ds.map nanos).sum := by
  have hempty : Tally.empty.amount = 0 := rfl
  have htotal := Tally.total?_foldlM ds .empty
  rwa [hempty, Nat.zero_add] at htotal

end ProbeSuite
