import Mathlib.Algebra.Order.BigOperators.Group.List
import Mathlib.Algebra.Order.Ring.Nat
import ProbeSuite.Proofs.Duration.Sum
import ProbeSuite.Proofs.Report.Stored

/-!
# Totals of reports

* `Report.amount` : the nanoseconds of all measurements together;
* `Report.total?_eq_some_iff`, `total?_eq_none_iff` : a report has this total, unless it is no duration;
* `Report.summary?_eq_none_iff` : a report has a summary if it has a total;
* `Report.amount_le` : a bound for times that fit words;
* `Report.total_is_exact` : all of it, also for reports that were read.
-/

namespace ProbeSuite.Report

variable {r : Report} {d : Duration}

/-- The nanoseconds of all measurements together. -/
def amount (r : Report) : Nat := (r.measurements.map fun m => m.elapsed.nanos).sum

theorem total?_eq (r : Report) : r.total? = Duration.ofNanos? r.amount := by
  unfold total? amount
  rw [Duration.sum?_eq, List.map_map]
  rfl

theorem total?_eq_some_iff : r.total? = some d ↔ d.nanos = r.amount := by
  rw [total?_eq, Duration.ofNanos?_eq_some_iff]

theorem total?_eq_none_iff : r.total? = none ↔ 2 ^ 64 * nanosPerSec ≤ r.amount := by
  rw [total?_eq, Duration.ofNanos?_eq_none_iff]

theorem total?_isSome (h : r.amount < 2 ^ 64 * nanosPerSec) : r.total?.isSome := by
  rw [Option.isSome_iff_ne_none]
  intro hnone
  have hlarge := total?_eq_none_iff.1 hnone
  omega

theorem summary?_eq_none_iff : r.summary? = none ↔ r.total? = none := by
  unfold summary?
  cases r.total? with
  | none => exact iff_of_true rfl rfl
  | some d => exact iff_of_false nofun nofun

theorem amount_perm {s : Report} (h : s.measurements.Perm r.measurements) : s.amount = r.amount :=
  (h.map _).sum_eq

theorem amount_append {xs ys : List Measurement} (h : r.measurements = xs ++ ys) :
    r.amount = amount { r with measurements := xs } + amount { r with measurements := ys } := by
  unfold amount
  rw [h, List.map_append, List.sum_append]

/-- The parts of a report with a total have totals too, and it is their sum. -/
theorem total?_append {xs ys : List Measurement} (h : r.measurements = xs ++ ys) (htotal : r.total? = some d) :
    ∃ a b, total? { r with measurements := xs } = some a ∧ total? { r with measurements := ys } = some b ∧
      a.add? b = some d := by
  have hd := d.nanos_lt
  rw [total?_eq_some_iff, amount_append h] at htotal
  obtain ⟨a, ha⟩ := Option.isSome_iff_exists.1 (total?_isSome (r := { r with measurements := xs }) (by omega))
  obtain ⟨b, hb⟩ := Option.isSome_iff_exists.1 (total?_isSome (r := { r with measurements := ys }) (by omega))
  refine ⟨a, b, ha, hb, ?_⟩
  rw [Duration.add?, Duration.ofNanos?_eq_some_iff, htotal, total?_eq_some_iff.1 ha, total?_eq_some_iff.1 hb]

theorem amount_le (h : r.FitsWords) : r.amount ≤ r.measurements.length * (2 ^ 64 - 1) := by
  have hle : ∀ n ∈ r.measurements.map fun m => m.elapsed.nanos, n ≤ 2 ^ 64 - 1 := by
    intro n hn
    obtain ⟨m, hm, rfl⟩ := List.mem_map.1 hn
    exact Nat.le_sub_one_of_lt (h m hm)
  have hsum := List.sum_le_card_nsmul _ _ hle
  rw [List.length_map] at hsum
  exact hsum

theorem amount_lt_of_decode {text : String} (h : decode text = .ok r) (hlength : r.measurements.length ≤ 10 ^ 9) :
    r.amount < 2 ^ 64 * nanosPerSec := by
  calc r.amount ≤ r.measurements.length * (2 ^ 64 - 1) := amount_le (fitsWords_of_decode h)
    _ ≤ 10 ^ 9 * (2 ^ 64 - 1) := Nat.mul_le_mul_right _ hlength
    _ < 2 ^ 64 * nanosPerSec := by decide

/-- **A total is the exact sum of the times**, or there is none because that sum is longer than any duration. So the
order of the measurements does not matter, the totals of two parts add up to that of the whole, and there is a summary
exactly if there is a total. A report of up to `10 ^ 9` measurements that was read has both. -/
theorem total_is_exact (r : Report) :
    let sum := (r.measurements.map fun m => m.elapsed.nanos).sum
    (r.total? = none ↔ 2 ^ 64 * nanosPerSec - 1 < sum) ∧
    (sum ≤ 2 ^ 64 * nanosPerSec - 1 → ∃ d, r.total? = some d ∧
      d.secs * nanosPerSec + d.subsecNanos = sum ∧ d.secs < 2 ^ 64 ∧ d.subsecNanos < nanosPerSec) ∧
    (∀ ms, ms.Perm r.measurements → total? { r with measurements := ms } = r.total?) ∧
    (∀ xs ys d, r.measurements = xs ++ ys → r.total? = some d →
      ∃ a b, total? { r with measurements := xs } = some a ∧ total? { r with measurements := ys } = some b ∧
        a.add? b = some d ∧ a.nanos + b.nanos = d.nanos) ∧
    (r.summary? = none ↔ r.total? = none) ∧
    ∀ text, decode text = .ok r → r.measurements.length ≤ 10 ^ 9 → r.total?.isSome ∧ r.summary?.isSome := by
  intro sum
  refine ⟨?_, ?_, ?_, ?_, summary?_eq_none_iff, ?_⟩
  · rw [total?_eq_none_iff]
    show 2 ^ 64 * nanosPerSec ≤ sum ↔ _
    simp only [nanosPerSec]
    omega
  · intro hle
    have hlt : r.amount < 2 ^ 64 * nanosPerSec := Nat.lt_of_le_sub_one (by decide) hle
    obtain ⟨d, htotal⟩ := Option.isSome_iff_exists.1 (total?_isSome hlt)
    refine ⟨d, htotal, ?_, d.secs_lt, d.subsecNanos_lt⟩
    exact (Nat.div_add_mod' d.nanos nanosPerSec).trans (total?_eq_some_iff.1 htotal)
  · intro ms hms
    rw [total?_eq, total?_eq, amount_perm hms]
  · intro xs ys d h htotal
    obtain ⟨a, b, ha, hb, hadd⟩ := total?_append h htotal
    exact ⟨a, b, ha, hb, hadd, (Duration.ofNanos?_eq_some_iff.1 hadd).symm⟩
  · intro text hdecode hlength
    have htotal := total?_isSome (amount_lt_of_decode hdecode hlength)
    refine ⟨htotal, ?_⟩
    rw [Option.isSome_iff_ne_none] at htotal ⊢
    exact fun hnone => htotal (summary?_eq_none_iff.1 hnone)

/-- Two carries lead to the greatest duration, in any order. A report that was read holds the greatest word. -/
theorem total_is_exact_greatest :
    let m : Measurement := ⟨.recursion, 1, ⟨18446744073709551614 * nanosPerSec + 500000000, by decide⟩⟩
    let n : Measurement := ⟨.iteration, 2, ⟨750000000, by decide⟩⟩
    let o : Measurement := ⟨.mapAccess, 3, ⟨749999999, by decide⟩⟩
    let r : Report := ⟨.epoch, ⟨"", "", 1⟩, [m, n, o]⟩
    let text := "[\"1970-01-01T00:00:00Z\", [\"\", \"\", 1], [[\"MapAccess\", 3, 18446744073709551615]]]"
    let s : Report := ⟨.epoch, ⟨"", "", 1⟩, [⟨.mapAccess, 3, ⟨18446744073709551615, by decide⟩⟩]⟩
    (∃ d, r.total? = some d ∧ d.secs * nanosPerSec + d.subsecNanos = 2 ^ 64 * nanosPerSec - 1 ∧
      ∃ a b, total? { r with measurements := [m] } = some a ∧ total? { r with measurements := [n, o] } = some b ∧
        a.nanos + b.nanos = d.nanos) ∧
      total? { r with measurements := [n, o, m] } = r.total? ∧ decode text = .ok s ∧ s.summary?.isSome := by
  intro m n o r text s
  obtain ⟨-, hexact, hperm, happend, -, -⟩ := total_is_exact r
  obtain ⟨-, -, -, -, -, hread⟩ := total_is_exact s
  obtain ⟨d, htotal, hsum, -, -⟩ := hexact (by decide)
  obtain ⟨a, b, ha, hb, -, hab⟩ := happend [m] [n, o] d rfl htotal
  have hdecode : decode text = .ok s := by decide +kernel
  have hswap : ([n, o] ++ [m]).Perm ([m] ++ [n, o]) := List.perm_append_comm
  exact ⟨⟨d, htotal, hsum.trans (by decide), a, b, ha, hb, hab⟩, hperm [n, o, m] hswap, hdecode,
    (hread text hdecode (by decide)).2⟩

end ProbeSuite.Report
