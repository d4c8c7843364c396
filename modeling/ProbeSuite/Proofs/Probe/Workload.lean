import Mathlib.Data.Nat.Choose.Basic
import Mathlib.Data.Nat.Fib.Basic
import ProbeSuite.Proofs.Duration.Sum
import ProbeSuite.Proofs.Runner.Collecting

/-!
# What the workloads compute

A workload that adds, subtracts and counts in words has no value if one of its numbers leaves 64 bits. The workloads
of the suite are recursions on natural numbers; here each is the loop, or the recursion, that does all of it in words.

* `Workload.countFrom` : a loop that counts a word up to a limit;
* `Workload.countFrom_spec` : such a loop has a result, for which holds what each round keeps;
* `Workload.countFrom_eq` : such a loop as a recursion on the number of its rounds;
* `Workload.fibInWords_eq`, `accumulateInWords_eq`, `appendInWords_eq`, `overwriteInWords_eq` : the workloads in words;
* `Workload.fib_eq_some_iff`, `accumulate_spec`, `appendSequence_spec`, `overwriteKey_spec` : their closed forms;
* `Probe.compute_spec`, `Probe.value_spec`, `Runner.closedForms_of_ok` : what probes and runs report;
* `Workload.computes_closed_forms` : all of it.
-/

namespace ProbeSuite

namespace Workload

variable {a b c : UInt64}

/-! ## Words -/

/-- The difference of two words, if it is a word. -/
def subWords (a b : UInt64) : Option UInt64 := if b ≤ a then some (a - b) else none

theorem some_word_eq_some_iff : some a = some c ↔ c.toNat = a.toNat := by
  rw [Option.some.injEq, ← UInt64.toNat_inj, eq_comm]

theorem subWords_eq_some_iff : subWords a b = some c ↔ c.toNat + b.toNat = a.toNat := by
  unfold subWords
  split
  · next hle =>
    have hdiff : (a - b).toNat = a.toNat - b.toNat := UInt64.toNat_sub_of_le a b hle
    have hle' : b.toNat ≤ a.toNat := UInt64.le_iff_toNat_le.1 hle
    rw [some_word_eq_some_iff, hdiff]
    omega
  · next hgt =>
    have hgt' : ¬b.toNat ≤ a.toNat := mt UInt64.le_iff_toNat_le.2 hgt
    exact iff_of_false nofun (by omega)

theorem exists_addWords (h : a.toNat + b.toNat < 2 ^ 64) :
    ∃ c, addWords? a b = some c ∧ c.toNat = a.toNat + b.toNat :=
  ⟨a + b, addWords?_eq_some_iff.2 (toNat_add_of_lt h), toNat_add_of_lt h⟩

theorem toNat_pred (h : a ≠ 0) : (a - 1).toNat = a.toNat - 1 := by
  have hpos : a.toNat ≠ 0 := fun hzero => h (UInt64.toNat_inj.1 hzero)
  exact UInt64.toNat_sub_of_le a 1 (UInt64.le_iff_toNat_le.2 (Nat.one_le_iff_ne_zero.2 hpos))

theorem exists_subWords (h : b.toNat ≤ a.toNat) : ∃ c, subWords a b = some c :=
  ⟨a - b, if_pos (UInt64.le_iff_toNat_le.2 h)⟩

/-! ## Loops -/

/-- Does `step i`, `step (i + 1)`, ... for the counters below a limit. There is no result if a step has none, or if
the counter leaves the words. -/
def countFrom {α : Type} (limit : UInt64) (step : UInt64 → α → Option α) (i : UInt64) (x : α) : Option α :=
  if i < limit then do
    let x ← step i x
    match _ : addWords? i 1 with
    | some j => countFrom limit step j x
    | none => none
  else some x
termination_by limit.toNat - i.toNat
decreasing_by
  have hlt : i.toNat < limit.toNat := UInt64.lt_iff_toNat_lt.1 ‹i < limit›
  have hnext : j.toNat = i.toNat + 1 := addWords?_eq_some_iff.1 ‹addWords? i 1 = some j›
  omega

section Loops

variable {α : Type} {limit i : UInt64} {step : UInt64 → α → Option α} {x : α}

/-- A counter below a limit is not the last word. -/
theorem toNat_next (h : i.toNat < limit.toNat) : (i + 1).toNat = i.toNat + 1 :=
  toNat_add_of_lt (b := 1) (Nat.lt_of_le_of_lt h limit.toNat_lt)

theorem countFrom_of_le (h : limit.toNat ≤ i.toNat) : countFrom limit step i x = some x := by
  have hi : ¬i < limit := fun hlt => Nat.not_lt.2 h (UInt64.lt_iff_toNat_lt.1 hlt)
  rw [countFrom, if_neg hi]

theorem countFrom_of_lt (h : i.toNat < limit.toNat) :
    countFrom limit step i x = (step i x).bind (countFrom limit step (i + 1)) := by
  have hnext : addWords? i 1 = some (i + 1) := addWords?_eq_some_iff.2 (toNat_next h)
  rw [countFrom, if_pos (UInt64.lt_iff_toNat_lt.2 h)]
  refine congrArg (step i x).bind (funext fun y => ?_)
  split
  · next j hj => rw [Option.some.inj (hj.symm.trans hnext)]
  · next hnone => cases hnone.symm.trans hnext

theorem countFrom_keeps (Inv : Nat → α → Prop)
    (hstep : ∀ i x, i.toNat < limit.toNat → Inv i.toNat x → ∃ y, step i x = some y ∧ Inv (i.toNat + 1) y)
    (rounds : Nat) : ∀ i x, i.toNat + rounds = limit.toNat → Inv i.toNat x →
      ∃ y, countFrom limit step i x = some y ∧ Inv limit.toNat y := by
  induction rounds with
  | zero =>
    intro i x hi hx
    exact ⟨x, countFrom_of_le hi.ge, hi ▸ hx⟩
  | succ rounds ih =>
    intro i x hi hx
    have hlt : i.toNat < limit.toNat := by omega
    have hnext := toNat_next hlt
    obtain ⟨y, hy, hkept⟩ := hstep i x hlt hx
    obtain ⟨z, hz, hend⟩ := ih (i + 1) y (by omega) (hnext ▸ hkept)
    refine ⟨z, ?_, hend⟩
    rw [countFrom_of_lt hlt, hy, Option.bind_some, hz]

/-- **A loop has a result, for which holds what each round keeps**, if each round that finds it has a result. -/
theorem countFrom_spec (Inv : Nat → α → Prop) (hstart : Inv 0 x)
    (hstep : ∀ i x, i.toNat < limit.toNat → Inv i.toNat x → ∃ y, step i x = some y ∧ Inv (i.toNat + 1) y) :
    ∃ y, countFrom limit step 0 x = some y ∧ Inv limit.toNat y :=
  countFrom_keeps Inv hstep limit.toNat 0 x (Nat.zero_add _) hstart

theorem holds_of_countFrom {y : α} (hresult : countFrom limit step 0 x = some y) (Inv : Nat → α → Prop)
    (hstart : Inv 0 x)
    (hstep : ∀ i x, i.toNat < limit.toNat → Inv i.toNat x → ∃ y, step i x = some y ∧ Inv (i.toNat + 1) y) :
    Inv limit.toNat y := by
  obtain ⟨z, hz, hend⟩ := countFrom_spec Inv hstart hstep
  cases hz.symm.trans hresult
  exact hend

theorem countFrom_rounds {run : Nat → UInt64 → α → Option α} (hzero : ∀ i x, run 0 i x = some x)
    (hsucc : ∀ rounds i x, run (rounds + 1) i x = (step i x).bind (run rounds (i + 1))) (rounds : Nat) :
    ∀ i x, i.toNat + rounds = limit.toNat → countFrom limit step i x = run rounds i x := by
  induction rounds with
  | zero =>
    intro i x hi
    rw [countFrom_of_le hi.ge, hzero]
  | succ rounds ih =>
    intro i x hi
    have hlt : i.toNat < limit.toNat := by omega
    have hnext := toNat_next hlt
    rw [countFrom_of_lt hlt, hsucc]
    exact congrArg (step i x).bind (funext fun y => ih (i + 1) y (by omega))

/-- A recursion on the number of rounds that are left does what the loop does. -/
theorem countFrom_eq (run : Nat → UInt64 → α → Option α) (hzero : ∀ i x, run 0 i x = some x)
    (hsucc : ∀ rounds i x, run (rounds + 1) i x = (step i x).bind (run rounds (i + 1))) :
    countFrom limit step 0 x = run limit.toNat 0 x :=
  countFrom_rounds hzero hsucc limit.toNat 0 x (Nat.zero_add _)

end Loops

/-! ## Fibonacci numbers -/

/-- The double recursion on a word. -/
def fibInWords (n : UInt64) : Option UInt64 :=
  if n < 2 then some n
  else
    match _ : subWords n 1, _ : subWords n 2 with
    | some p, some q => do addWords? (← fibInWords p) (← fibInWords q)
    | _, _ => none
termination_by n.toNat
decreasing_by
  · have hp : p.toNat + 1 = n.toNat := subWords_eq_some_iff.1 ‹subWords n 1 = some p›
    omega
  · have hq : q.toNat + 2 = n.toNat := subWords_eq_some_iff.1 ‹subWords n 2 = some q›
    omega

theorem fibInWords_eq (n : UInt64) : fibInWords n = fib n.toNat := by
  fun_induction fibInWords n with
  | case1 n hn =>
    have hlt : n.toNat < 2 := UInt64.lt_iff_toNat_lt.1 hn
    obtain hzero | hone : n.toNat = 0 ∨ n.toNat = 1 := by omega
    · obtain rfl : n = 0 := UInt64.toNat_inj.1 hzero
      rfl
    · obtain rfl : n = 1 := UInt64.toNat_inj.1 hone
      rfl
  | case2 n hn p q hp hq ihp ihq =>
    have hp' : p.toNat + 1 = n.toNat := subWords_eq_some_iff.1 hp
    have hq' : q.toNat + 2 = n.toNat := subWords_eq_some_iff.1 hq
    have hpq : p.toNat = q.toNat + 1 := by omega
    rw [ihp, ihq, ← hq', hpq]
    rfl
  | case3 n hn hnone =>
    -- both differences are words, because the recursion has ended below 2
    have hge : 2 ≤ n.toNat := UInt64.le_iff_toNat_le.1 (UInt64.not_lt.1 hn)
    obtain ⟨p, hp⟩ : ∃ p, subWords n 1 = some p := exists_subWords (Nat.le_of_succ_le hge)
    obtain ⟨q, hq⟩ : ∃ q, subWords n 2 = some q := exists_subWords hge
    exact (hnone p q hp hq).elim

/-- **The recursion has the Fibonacci number as its value**, if that is a word. -/
theorem fib_eq_some_iff {n : Nat} : fib n = some c ↔ c.toNat = Nat.fib n := by
  induction n using fib.induct generalizing c with
  | case1 => exact some_word_eq_some_iff
  | case2 => exact some_word_eq_some_iff
  | case3 n ihnext ih =>
    rw [Nat.fib_add_two, Nat.add_comm]
    constructor
    · intro h
      obtain ⟨a, ha, h⟩ := Option.bind_eq_some_iff.1 h
      obtain ⟨b, hb, h⟩ := Option.bind_eq_some_iff.1 h
      rw [← ihnext.1 ha, ← ih.1 hb]
      exact addWords?_eq_some_iff.1 h
    · intro h
      have hlt : Nat.fib (n + 1) + Nat.fib n < UInt64.size := h ▸ c.toNat_lt_size
      have ha : (UInt64.ofNat (Nat.fib (n + 1))).toNat = Nat.fib (n + 1) := UInt64.toNat_ofNat_of_lt (by omega)
      have hb : (UInt64.ofNat (Nat.fib n)).toNat = Nat.fib n := UInt64.toNat_ofNat_of_lt (by omega)
      refine Option.bind_eq_some_iff.2 ⟨_, ihnext.2 ha, Option.bind_eq_some_iff.2 ⟨_, ih.2 hb, ?_⟩⟩
      rw [addWords?_eq_some_iff, ha, hb, h]

theorem fib_spec {n : Nat} (hfit : Nat.fib n < 2 ^ 64) : ∃ v, fib n = some v ∧ v.toNat = Nat.fib n := by
  have hv : (UInt64.ofNat (Nat.fib n)).toNat = Nat.fib n := UInt64.toNat_ofNat_of_lt' hfit
  exact ⟨_, fib_eq_some_iff.2 hv, hv⟩

/-! ## Sums -/

/-- The sum of the words below a limit, added up in a loop. -/
def accumulateInWords (limit : UInt64) : Option UInt64 := countFrom limit (fun i sum => addWords? sum i) 0 0

theorem accumulateInWords_eq (n : UInt64) : accumulateInWords n = accumulate n.toNat :=
  countFrom_eq accumulateFrom (fun _ _ => rfl) fun _ _ _ => rfl

theorem triangle_le {m n : Nat} (h : m ≤ n) : m * (m - 1) / 2 ≤ n * (n - 1) / 2 :=
  Nat.div_le_div_right (Nat.mul_le_mul h (Nat.sub_le_sub_right h 1))

/-- **The sum of the numbers below a limit**, if that is a word. -/
theorem accumulate_spec {n : UInt64} (hfit : n.toNat * (n.toNat - 1) / 2 < 2 ^ 64) :
    ∃ v, accumulate n.toNat = some v ∧ v.toNat = n.toNat * (n.toNat - 1) / 2 := by
  rw [← accumulateInWords_eq]
  -- before each round the sum is that of the numbers below the counter, and no larger than the whole
  refine countFrom_spec (fun i (sum : UInt64) => sum.toNat = i * (i - 1) / 2) rfl ?_
  intro i sum hi hsum
  have hnext : sum.toNat + i.toNat = (i.toNat + 1) * (i.toNat + 1 - 1) / 2 := by
    rw [hsum, Nat.triangle_succ]
  have hle : (i.toNat + 1) * (i.toNat + 1 - 1) / 2 ≤ n.toNat * (n.toNat - 1) / 2 := triangle_le hi
  obtain ⟨sum', hadd, hsum'⟩ : ∃ sum', addWords? sum i = some sum' ∧ sum'.toNat = sum.toNat + i.toNat :=
    exists_addWords (by omega)
  exact ⟨sum', hadd, hsum'.trans hnext⟩

/-! ## Sequences -/

/-- The words below a limit, appended in a loop. -/
def appendInWords (count : UInt64) : Option (Array UInt64) :=
  countFrom count (fun j values => some (values.push j)) 0 #[]

theorem appendInWords_eq (n : UInt64) : appendInWords n = some (appendSequence n.toNat) :=
  countFrom_eq (fun count j values => some (appendFrom count j values)) (fun _ _ => rfl) fun _ _ _ => rfl

/-- **The sequence is that of the numbers below its length.** -/
theorem appendSequence_spec (n : UInt64) : (appendSequence n.toNat).toList.map UInt64.toNat = List.range n.toNat := by
  -- before each round the sequence is that of the numbers below the counter
  refine holds_of_countFrom (appendInWords_eq n) (fun j values => values.toList.map UInt64.toNat = List.range j) rfl ?_
  intro j values _ hvalues
  refine ⟨values.push j, rfl, ?_⟩
  rw [Array.toList_push, List.map_append, hvalues, List.range_succ]
  rfl

theorem size_appendSequence (n : UInt64) : (appendSequence n.toNat).size = n.toNat := by
  rw [← Array.length_toList, ← List.length_map UInt64.toNat, appendSequence_spec, List.length_range]

/-! ## Tables -/

/-- The table with the words below a limit, written in a loop. -/
def overwriteInWords (count : UInt64) : Option (List (String × UInt64)) :=
  countFrom count (fun k table => some (put mapKey k table)) 0 []

theorem overwriteInWords_eq (n : UInt64) : overwriteInWords n = some (overwriteKey n.toNat) :=
  countFrom_eq (fun count k table => some (overwriteFrom count k table)) (fun _ _ => rfl) fun _ _ _ => rfl

/-- The table with the last of so many numbers, if there is one. -/
def written : Nat → List (String × UInt64)
  | 0 => []
  | n + 1 => [(mapKey, .ofNat n)]

theorem put_written (v : UInt64) (n : Nat) : put mapKey v (written n) = [(mapKey, v)] := by
  cases n with
  | zero => rfl
  | succ n => exact if_pos rfl

theorem overwriteKey_eq_written (n : UInt64) : overwriteKey n.toNat = written n.toNat := by
  refine holds_of_countFrom (overwriteInWords_eq n) (fun k table => table = written k) rfl ?_
  rintro k _ _ rfl
  refine ⟨_, rfl, ?_⟩
  rw [put_written, written, UInt64.ofNat_toNat]

/-- **The table has the last number**, if there is one. -/
theorem overwriteKey_spec (n : UInt64) : overwriteKey n.toNat = if n = 0 then [] else [(mapKey, n - 1)] := by
  rw [overwriteKey_eq_written]
  split
  · next hzero =>
    rw [hzero]
    rfl
  · next hne =>
    have hlast := toNat_pred hne
    have hpos : n.toNat ≠ 0 := fun hzero => hne (UInt64.toNat_inj.1 hzero)
    have hsucc : n.toNat = (n - 1).toNat + 1 := by omega
    rw [hsucc, written, UInt64.ofNat_toNat]

end Workload

/-! ## Probes -/

namespace Probe

open Workload

/-- What a probe computes on an input, as a number. -/
def closedForm (n : Nat) : Probe → Nat
  | .recursion => Nat.fib n
  | .iteration => n * (n - 1) / 2
  | .listAllocation => n
  | .mapAccess => n - 1

/-- **A probe computes its closed form**, if that is a word. -/
theorem compute_spec (p : Probe) {n : UInt64} (hfit : p.closedForm n.toNat < 2 ^ 64) :
    ∃ v, p.compute n.toNat = some v ∧ v.toNat = p.closedForm n.toNat := by
  cases p with
  | recursion => exact fib_spec hfit
  | iteration => exact accumulate_spec hfit
  | listAllocation =>
    refine ⟨n, ?_, rfl⟩
    rw [compute, size_appendSequence, UInt64.ofNat_toNat]
  | mapAccess =>
    refine ⟨_, rfl, ?_⟩
    rw [overwriteKey_spec]
    split
    · next hzero =>
      rw [hzero]
      rfl
    · next hne =>
      rw [List.lookup_cons_self, Option.getD_some, toNat_pred hne]
      rfl

/-- The suite runs a probe at a size at which its closed form is a word. -/
theorem value_spec (p : Probe) :
    p.compute p.inputSize = some p.value ∧ p.value.toNat = p.closedForm p.inputSize := by
  have hsize : (UInt64.ofNat p.inputSize).toNat = p.inputSize :=
    UInt64.toNat_ofNat_of_lt (by cases p <;> decide)
  have hfit : p.closedForm p.inputSize < 2 ^ 64 := by cases p <;> decide
  rw [← hsize] at hfit
  obtain ⟨v, hcompute, hv⟩ := p.compute_spec hfit
  rw [hsize] at hcompute hv
  have hvalue : p.value = v := by
    rw [value, hcompute]
    rfl
  rw [hvalue]
  exact ⟨hcompute, hv⟩

example : all.map (fun p => p.value.toNat) = [317811, 499999500000, 100000, 99999] := by
  rw [List.map_congr_left fun p _ => p.value_spec.2]
  decide

end Probe

/-- A run reports the closed forms of all probes, in run order. -/
theorem Runner.closedForms_of_ok {r : Runner} {sink : Sink} {c : Conditions} {f : Files} {report : Report}
    (h : (r.run sink c f).result = .ok report) :
    report.measurements.map (fun m => (m.probe, m.value.toNat)) =
      Probe.all.map fun p => (p, p.closedForm p.inputSize) := by
  obtain ⟨-, hvalues⟩ := values_of_ok h
  have hnumbers := congrArg (List.map fun v : Probe × UInt64 => (v.1, v.2.toNat)) hvalues
  rw [List.map_map, List.map_map] at hnumbers
  refine hnumbers.trans (List.map_congr_left fun p _ => ?_)
  exact congrArg (Prod.mk p) p.value_spec.2

namespace Workload

/-- **The workloads compute their closed forms**, as long as these are words: a Fibonacci number, the sum of the
numbers below a limit, their sequence, and the table with the last of them. They do so with all their numbers in words,
where a sum, a difference or a counter that leaves 64 bits would end them without a value. So a measurement has the
value of the closed form of its probe, and so has each probe in a report that a run returns. -/
theorem computes_closed_forms :
    (∀ n : UInt64,
      (Nat.fib n.toNat < 2 ^ 64 →
        ∃ v, fib n.toNat = some v ∧ fibInWords n = some v ∧ v.toNat = Nat.fib n.toNat) ∧
      (n.toNat * (n.toNat - 1) / 2 < 2 ^ 64 →
        ∃ v, accumulate n.toNat = some v ∧ accumulateInWords n = some v ∧
          v.toNat = n.toNat * (n.toNat - 1) / 2) ∧
      ((appendSequence n.toNat).toList.map UInt64.toNat = List.range n.toNat ∧
        (appendSequence n.toNat).size = n.toNat ∧ appendInWords n = some (appendSequence n.toNat)) ∧
      (overwriteKey n.toNat = if n = 0 then [] else [(mapKey, n - 1)]) ∧
        overwriteInWords n = some (overwriteKey n.toNat)) ∧
    (∀ (c : Conditions) (p : Probe), (c.measured p).probe = p ∧
      p.compute p.inputSize = some (c.measured p).value ∧
        (c.measured p).value.toNat = p.closedForm p.inputSize) ∧
    ∀ (r : Runner) (sink : Sink) (c : Conditions) (f : Files) (report : Report),
      (r.run sink c f).result = .ok report →
        report.measurements.map (fun m => (m.probe, m.value.toNat)) =
          Probe.all.map fun p => (p, p.closedForm p.inputSize) := by
  refine ⟨fun n => ⟨fun hfit => ?_, fun hfit => ?_, ?_, overwriteKey_spec n, overwriteInWords_eq n⟩,
    fun c p => ⟨rfl, p.value_spec⟩, fun r sink c f report hok => Runner.closedForms_of_ok hok⟩
  · obtain ⟨v, hv, hfib⟩ := fib_spec hfit
    exact ⟨v, hv, (fibInWords_eq n).trans hv, hfib⟩
  · obtain ⟨v, hv, hsum⟩ := accumulate_spec hfit
    exact ⟨v, hv, (accumulateInWords_eq n).trans hv, hsum⟩
  · exact ⟨appendSequence_spec n, size_appendSequence n, appendInWords_eq n⟩

/-- The largest inputs whose Fibonacci number and whose sum are words, and a run that is delivered. -/
theorem computes_closed_forms_largest :
    let c : Conditions := ⟨⟨0, 0, by decide, by decide⟩, ⟨"", "", 0⟩, fun _ => .zero, by decide⟩
    (∃ v, fib 93 = some v ∧ fibInWords 93 = some v ∧ v.toNat = 12200160415121876738) ∧
      (∃ v, accumulate 6074001000 = some v ∧ accumulateInWords 6074001000 = some v ∧
        v.toNat = 18446744070963499500) ∧
      ∃ report, (Runner.run ⟨⟨.json, false, 100⟩, none⟩ .unlimited c (Files.fresh [])).result = .ok report ∧
        report.measurements.map (fun m => (m.probe, m.value.toNat)) =
          [(.recursion, 317811), (.iteration, 499999500000), (.listAllocation, 100000), (.mapAccess, 99999)] := by
  intro c
  obtain ⟨hwords, -, hruns⟩ := computes_closed_forms
  have hdelivered : (Runner.run ⟨⟨.json, false, 100⟩, none⟩ .unlimited c (Files.fresh [])).result =
      .ok (Runner.reportOf c) :=
    (Runner.run_of_not_recording rfl).2 (Runner.not_io_unlimited _ c _)
  refine ⟨?_, ?_, Runner.reportOf c, hdelivered, (hruns _ _ _ _ _ hdelivered).trans (by decide)⟩
  · obtain ⟨v, hv, hwords, hfib⟩ := (hwords 93).1 (by decide)
    exact ⟨v, hv, hwords, hfib.trans (by decide)⟩
  · obtain ⟨v, hv, hwords, hsum⟩ := (hwords 6074001000).2.1 (by decide)
    exact ⟨v, hv, hwords, hsum.trans (by decide)⟩

end Workload

end ProbeSuite
