import ProbeSuite.Proofs.Report.Total
import ProbeSuite.Proofs.Duration.Units
import ProbeSuite.Proofs.Text.Fields
import ProbeSuite.Proofs.Timestamp

/-!
# Summaries

* `Measurement.summary_inj` : the part of a measurement shows its probe, its value and its microseconds;
* `Report.toList_summary` : the text of a summary, taken apart where it is read;
* `Report.summary_inj` : two reports have one summary exactly if they agree on what it shows;
* `Report.summary_is_uniquely_readable` : this, and that it is on one line.
-/

namespace ProbeSuite

/-! ## Measurements -/

theorem Probe.name_inj {p q : Probe} : p.name = q.name ↔ p = q := by
  cases p <;> cases q <;> decide

/-- Names of probes have letters and underscores only. -/
theorem Probe.forall_mem_name (p : Probe) : ∀ c ∈ p.name.toList, c.isAlphanum = true ∨ c = '_' := by
  cases p <;> exact Text.forall_mem_of_all (by decide)

namespace Measurement

variable {m n : Measurement}

theorem toList_summary (m : Measurement) : m.summary.toList = m.probe.name.toList ++ '=' ::
    (Nat.toDigits 10 m.value.toNat ++ ' ' :: ('(' :: m.elapsed.unitsText.toList ++ [')'])) := by
  have htext : m.summary = m.probe.name ++ "=" ++ toString m.value.toNat ++ " (" ++ m.elapsed.unitsText ++ ")" := rfl
  rw [htext]
  simp

/-- The part of a measurement in a summary has neither commas nor dashes nor line ends. -/
theorem forall_mem_summary (m : Measurement) :
    ∀ c ∈ m.summary.toList, c.isAlphanum = true ∨ c ∈ ['_', '=', ' ', '(', ')'] := by
  have hname : ∀ c ∈ m.probe.name.toList, c.isAlphanum = true ∨ c ∈ ['_', '=', ' ', '(', ')'] := by
    intro c hc
    rcases m.probe.forall_mem_name c hc with h | rfl
    · exact .inl h
    · exact .inr (by decide)
  have hunits : ∀ c ∈ m.elapsed.unitsText.toList, c.isAlphanum = true ∨ c ∈ ['_', '=', ' ', '(', ')'] := by
    intro c hc
    rcases m.elapsed.forall_mem_unitsText c hc with h | rfl
    · exact .inl h
    · exact .inr (by decide)
  simp only [toList_summary, List.forall_mem_append, List.forall_mem_cons]
  exact ⟨hname, by decide, fun _ hc => .inl (Text.isAlphanum_toDigits hc), by decide, ⟨by decide, hunits⟩, by decide,
    List.forall_mem_nil _⟩

theorem summary_ne_nil (m : Measurement) : m.summary.toList ≠ [] := by
  rw [toList_summary]
  simp

theorem summary_inj : m.summary = n.summary ↔
    (m.probe, m.value, m.elapsed.wordMicros) = (n.probe, n.value, n.elapsed.wordMicros) := by
  have hequals : ∀ p : Probe, '=' ∉ p.name.toList := by
    intro p
    cases p <;> decide
  have hspace : ∀ k, ' ' ∉ Nat.toDigits 10 k := fun k h => Bool.false_ne_true (Json.isDigit_toDigits h)
  rw [← String.toList_inj, toList_summary, toList_summary, Text.append_cons_inj (hequals _) (hequals _),
    Text.append_cons_inj (hspace _) (hspace _), List.append_left_inj, List.cons_inj_right, String.toList_inj,
    String.toList_inj, Probe.name_inj, Duration.unitsText_inj, Prod.mk.injEq, Prod.mk.injEq,
    Text.toDigits_inj, UInt64.toNat_inj]

end Measurement

/-! ## Reports -/

namespace Report

variable {r s : Report} {d e : Duration}

/-- The measurements of a summary, with commas between them. -/
def joined (ms : List Measurement) : List Char := [',', ' '].intercalate (ms.map fun m => m.summary.toList)

theorem joined_inj {ms ns : List Measurement} :
    joined ms = joined ns ↔ ms.map (fun m => (m.probe, m.value, m.elapsed.wordMicros)) =
      ns.map fun m => (m.probe, m.value, m.elapsed.wordMicros) := by
  have hfields : ∀ ms : List Measurement, ∀ x ∈ ms.map fun m => m.summary.toList, x ≠ [] ∧ ',' ∉ x := by
    intro ms x hx
    obtain ⟨m, -, rfl⟩ := List.mem_map.1 hx
    exact ⟨m.summary_ne_nil, fun hcomma => absurd (m.forall_mem_summary _ hcomma) (by decide)⟩
  unfold joined
  rw [Text.intercalate_inj (by decide) (hfields ms) (hfields ns)]
  induction ms generalizing ns with
  | nil => cases ns <;> simp
  | cons m ms ih =>
    cases ns with
    | nil => simp
    | cons n ns =>
      rw [List.map_cons, List.map_cons, List.map_cons, List.map_cons, List.cons.injEq, List.cons.injEq,
        String.toList_inj, Measurement.summary_inj]
      exact and_congr_right fun _ => ih

theorem forall_mem_joined (ms : List Measurement) :
    ∀ c ∈ joined ms, c.isAlphanum = true ∨ c ∈ ['_', '=', ' ', '(', ')', ','] := by
  refine Text.forall_mem_intercalate (Text.forall_mem_of_all (by decide)) fun x hx => ?_
  obtain ⟨m, -, rfl⟩ := List.mem_map.1 hx
  intro c hc
  exact (m.forall_mem_summary c hc).imp_right fun h => List.mem_append_left [','] h

/-- The text of a summary, taken apart at its first `C` and at the last dash in front of the total. -/
theorem toList_summary (htotal : r.total? = some d) : ∃ text, r.summary? = some text ∧
    text.toList = r.timestamp.shownFront ++ 'C' ::
      ([' ', '-', ' '] ++ ((joined r.measurements ++ [' ']) ++ '-' :: (" total ".toList ++ d.unitsText.toList))) := by
  have hsummary : r.summary? = some (String.ofList r.timestamp.shown ++ " - " ++
      ", ".intercalate (r.measurements.map Measurement.summary) ++ " - total " ++ d.unitsText) := by
    unfold summary?
    rw [htotal]
    rfl
  refine ⟨_, hsummary, ?_⟩
  have hjoined : (", ".intercalate (r.measurements.map Measurement.summary)).toList = joined r.measurements := by
    rw [String.toList_intercalate, List.map_map]
    rfl
  simp only [String.toList_append, hjoined, String.toList_ofList, Timestamp.shown_eq]
  simp

/-- Two reports have one summary exactly if they agree on what it shows. -/
theorem summary_inj (hr : r.total? = some d) (hs : s.total? = some e) : r.summary? = s.summary? ↔
    r.timestamp.truncated = s.timestamp.truncated ∧
      r.measurements.map (fun m => (m.probe, m.value, m.elapsed.wordMicros)) =
        s.measurements.map (fun m => (m.probe, m.value, m.elapsed.wordMicros)) ∧ d.wordMicros = e.wordMicros := by
  obtain ⟨text, htext, hchars⟩ := toList_summary hr
  obtain ⟨text', htext', hchars'⟩ := toList_summary hs
  have htime : ∀ t : Timestamp, 'C' ∉ t.shownFront := fun t h => absurd (t.forall_mem_shownFront _ h) (by decide)
  have hprobes : ∀ ms : List Measurement, '-' ∉ joined ms ++ [' '] := by
    intro ms h
    rcases List.mem_append.1 h with h | h
    · exact absurd (forall_mem_joined ms _ h) (by decide)
    · exact absurd h (by decide)
  rw [htext, htext', Option.some.injEq, ← String.toList_inj, hchars, hchars', Text.append_cons_inj (htime _) (htime _),
    List.append_right_inj, Text.append_cons_inj (hprobes _) (hprobes _), List.append_left_inj, List.append_right_inj,
    String.toList_inj, Timestamp.shownFront_inj, joined_inj, Duration.unitsText_inj]

/-- A summary has no line end. -/
theorem no_lineEnd_summary {text : String} (h : r.summary? = some text) : '\n' ∉ text.toList := by
  cases htotal : r.total? with
  | none =>
    rw [summary?_eq_none_iff.2 htotal] at h
    cases h
  | some d =>
    obtain ⟨text', htext', hchars⟩ := toList_summary htotal
    cases h.symm.trans htext'
    have htime : '\n' ∉ r.timestamp.shownFront := fun h => absurd (r.timestamp.forall_mem_shownFront _ h) (by decide)
    have hprobes : '\n' ∉ joined r.measurements := fun h => absurd (forall_mem_joined _ _ h) (by decide)
    have hunits : '\n' ∉ d.unitsText.toList := fun h => absurd (d.forall_mem_unitsText _ h) (by decide)
    rw [hchars]
    simp [htime, hprobes, hunits]

/-- **A summary is uniquely readable.** Every report whose times add up to a duration has a summary, on one line. Two
such reports have the same one exactly if they agree on the second of their timestamps, where a leap second is one of
its own, on the probe, the value and the whole microseconds of each measurement, in order, and on the whole microseconds
of the exact total; microseconds are taken modulo `2^64`. -/
theorem summary_is_uniquely_readable (r s : Report)
    (hr : (r.measurements.map fun m => m.elapsed.nanos).sum < 2 ^ 64 * nanosPerSec)
    (hs : (s.measurements.map fun m => m.elapsed.nanos).sum < 2 ^ 64 * nanosPerSec) :
    let shows (m : Measurement) := (m.probe, m.value, m.elapsed.nanos / 1000 % 2 ^ 64)
    let total (r : Report) := (r.measurements.map fun m => m.elapsed.nanos).sum / 1000 % 2 ^ 64
    ∃ text text', r.summary? = some text ∧ s.summary? = some text' ∧ '\n' ∉ text.toList ∧ '\n' ∉ text'.toList ∧
      (text = text' ↔
        (r.timestamp.seconds = s.timestamp.seconds ∧
          r.timestamp.nanos / 1000000000 = s.timestamp.nanos / 1000000000) ∧
        r.measurements.map shows = s.measurements.map shows ∧ total r = total s) := by
  intro shows total
  obtain ⟨d, hd⟩ := Option.isSome_iff_exists.1 (total?_isSome hr)
  obtain ⟨e, he⟩ := Option.isSome_iff_exists.1 (total?_isSome hs)
  obtain ⟨text, htext, -⟩ := toList_summary hd
  obtain ⟨text', htext', -⟩ := toList_summary he
  refine ⟨text, text', htext, htext', no_lineEnd_summary htext, no_lineEnd_summary htext', ?_⟩
  have hsame := summary_inj hd he
  rw [htext, htext', Option.some.injEq, Timestamp.truncated_eq_iff, Duration.wordMicros, Duration.wordMicros,
    total?_eq_some_iff.1 hd, total?_eq_some_iff.1 he] at hsame
  exact hsame

/-- A leap second on two hosts, and parts of microseconds that add up to one more. -/
theorem summary_is_uniquely_readable_leap :
    let report (time : Timestamp) (os : String) (a b : Duration) : Report :=
      ⟨time, ⟨os, "", 1⟩, [⟨.recursion, 1, a⟩, ⟨.recursion, 1, b⟩]⟩
    let r := report ⟨1483228799, 1500000000, by decide, by decide⟩ "a" ⟨1999, by decide⟩ ⟨1001, by decide⟩
    let s := report ⟨1483228799, 1000000000, by decide, by decide⟩ "b" ⟨1500, by decide⟩ ⟨1500, by decide⟩
    let u := report ⟨1483228799, 1500000000, by decide, by decide⟩ "a" ⟨1000, by decide⟩ ⟨1000, by decide⟩
    r.amount < 2 ^ 64 * nanosPerSec ∧ s.amount < 2 ^ 64 * nanosPerSec ∧ u.amount < 2 ^ 64 * nanosPerSec ∧
      r.summary? = s.summary? ∧ r.summary? ≠ u.summary? ∧
      r.summary? = some "2016-12-31 23:59:60 UTC - recursion=1 (1us), recursion=1 (1us) - total 3us" := by
  intro report r s u
  have hr : r.amount < 2 ^ 64 * nanosPerSec := by decide
  have hs : s.amount < 2 ^ 64 * nanosPerSec := by decide
  have hu : u.amount < 2 ^ 64 * nanosPerSec := by decide
  obtain ⟨text, text', htext, htext', -, -, hsame⟩ := summary_is_uniquely_readable r s hr hs
  obtain ⟨text₁, text₂, htext₁, htext₂, -, -, hother⟩ := summary_is_uniquely_readable r u hr hu
  refine ⟨hr, hs, hu, ?_, ?_, by decide +kernel⟩
  · rw [htext, htext', hsame.2 ⟨by decide, rfl, by decide⟩]
  · rw [htext₁, htext₂, Ne, Option.some.injEq, hother]
    rintro ⟨-, -, htotal⟩
    exact absurd htotal (by decide)

end Report

end ProbeSuite
