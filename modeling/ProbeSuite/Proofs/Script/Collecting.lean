import ProbeSuite.Proofs.Script.Ends
import ProbeSuite.Proofs.Script.Reaches

/-!
# The collected report

* `Script.steps_collecting` : the probes run first, then the report is written and flushed once;
* `Script.outcome_collecting` : the report;
* `Script.written_collecting`, `length_flushesFrom_collecting` : what the sink is to take;
* `Script.ends_collecting` : what it is left with, wherever it fails;
* `Script.reaches_measure`, `reaches_writing`, `reaches_flush` : what was done before each of the steps.
-/

namespace ProbeSuite

namespace Script

variable (measured : Probe → Measurement) (time : Timestamp) (host : Host)

theorem steps_measureAll (probes : List Probe) (finish : List Measurement → Script Report) :
    (measureAll probes finish).steps measured =
        probes.map Step.measure ++ (finish (probes.map measured)).steps measured ∧
      (measureAll probes finish).outcome measured = (finish (probes.map measured)).outcome measured := by
  induction probes generalizing finish with
  | nil => exact ⟨rfl, rfl⟩
  | cons p ps ih =>
    obtain ⟨hsteps, houtcome⟩ := ih fun ms => finish (measured p :: ms)
    exact ⟨congrArg (Step.measure p :: ·) hsteps, houtcome⟩

/-- The steps that write a report. -/
def reportSteps (report : Report) : List Step := [.write report.pretty, .write "\n", .flush]

theorem steps_collecting : (collecting time host).steps measured =
    Probe.all.map Step.measure ++ reportSteps ⟨time, host, Probe.all.map measured⟩ :=
  (steps_measureAll measured Probe.all fun ms =>
    .print (Report.mk time host ms).stored <| .write "\n" <| .flush <| .done ⟨time, host, ms⟩).1

theorem outcome_collecting : (collecting time host).outcome measured = ⟨time, host, Probe.all.map measured⟩ :=
  (steps_measureAll measured Probe.all fun ms =>
    .print (Report.mk time host ms).stored <| .write "\n" <| .flush <| .done ⟨time, host, ms⟩).2

theorem written_measures (probes : List Probe) : written (probes.map Step.measure) = [] := by
  induction probes with
  | nil => rfl
  | cons p ps ih => rw [List.map_cons, written_measure, ih]

theorem written_collecting : written ((collecting time host).steps measured) =
    Text.bytes ((Report.mk time host (Probe.all.map measured)).pretty ++ "\n") := by
  have hdone : written [] = [] := rfl
  rw [steps_collecting, written_append, written_measures, reportSteps, written_write, written_write, written_flush,
    hdone, Text.bytes_append, List.append_nil, List.nil_append]

theorem length_flushesFrom_collecting : (flushesFrom 0 ((collecting time host).steps measured)).length = 1 := by
  rw [length_flushesFrom, steps_collecting]
  rfl

/-! ## What the sink is left with -/

theorem started_measures (probes : List Probe) : started (probes.map Step.measure) = probes := by
  induction probes with
  | nil => rfl
  | cons p ps ih => exact congrArg (p :: ·) ih

theorem flushesFrom_measures (n : Nat) (probes : List Probe) (rest : List Step) :
    flushesFrom n (probes.map Step.measure ++ rest) = flushesFrom n rest := by
  induction probes with
  | nil => rfl
  | cons p ps ih => exact ih

/-- A step is the measurement of a probe after those before it, or it comes after all of them. -/
theorem measures_eq_append {probes : List Probe} {later done rest : List Step} {step : Step}
    (h : probes.map Step.measure ++ later = done ++ step :: rest) :
    (∃ before p after, probes = before ++ p :: after ∧ step = .measure p ∧ done = before.map Step.measure) ∨
      ∃ part, done = probes.map Step.measure ++ part ∧ later = part ++ step :: rest := by
  induction probes generalizing done with
  | nil => exact .inr ⟨done, rfl, h⟩
  | cons p ps ih =>
    cases done with
    | nil =>
      obtain ⟨rfl, -⟩ := List.cons.inj h
      exact .inl ⟨[], p, ps, rfl, rfl, rfl⟩
    | cons d done =>
      obtain ⟨rfl, htail⟩ := List.cons.inj h
      rcases ih htail with ⟨before, q, after, rfl, rfl, rfl⟩ | ⟨part, rfl, hlater⟩
      · exact .inl ⟨p :: before, q, after, rfl, rfl, rfl⟩
      · exact .inr ⟨part, rfl, hlater⟩

/-- What was done before each step that writes or flushes the report. -/
theorem reportSteps_eq_append {report : Report} {part rest : List Step} {step : Step}
    (h : reportSteps report = part ++ step :: rest) :
    step = .write report.pretty ∧ part = [] ∨ step = .write "\n" ∧ part = [.write report.pretty] ∨
      step = .flush ∧ part = [.write report.pretty, .write "\n"] := by
  rcases part with _ | ⟨s₁, _ | ⟨s₂, _ | ⟨s₃, part⟩⟩⟩ <;> simp [reportSteps] at h
  · exact .inl ⟨h.1.symm, rfl⟩
  · exact .inr (.inl ⟨h.2.1.symm, by rw [h.1]⟩)
  · exact .inr (.inr ⟨h.2.2.1.symm, by rw [h.1, h.2.1]⟩)

/-- All that the sink is to take. -/
def wholeOf (report : Report) : List UInt8 := Text.bytes (report.pretty ++ "\n")

theorem written_report (report : Report) :
    written (Probe.all.map Step.measure ++ [.write report.pretty, .write "\n"]) = wholeOf report := by
  rw [written_append, written_measures, written_write, written_write, written_nil, List.append_nil, List.nil_append,
    wholeOf, Text.bytes_append]

theorem started_report (part : List Step) (hpart : started part = []) :
    started (Probe.all.map Step.measure ++ part) = Probe.all := by
  rw [started_append, started_measures, hpart, List.append_nil]

variable {measured time host} {sink : Sink}

/-- **A collected report is written as far as the sink takes it**, and flushed if the sink takes all of it. -/
theorem ends_collecting {s : Progress} {result : Except IoError Unit}
    (h : Ends measured sink ((collecting time host).steps measured) s result) :
    let whole := wholeOf ⟨time, host, Probe.all.map measured⟩
    s.events = eventsOf measured Probe.all ∧ s.delivery.bytes = sink.accept [] whole ∧
      (s.delivery.bytes ≠ whole ∧ s.delivery.flushedAt = [] ∧ result = .error sink.error ∨
        s.delivery = ⟨whole, []⟩ ∧ sink.flushes = some 0 ∧ result = .error sink.flushError ∨
        s.delivery = ⟨whole, [Sink.lines whole]⟩ ∧ result = .ok ()) := by
  intro whole
  have hwhole : written ((collecting time host).steps measured) = whole := written_collecting measured time host
  have hsteps := steps_collecting measured time host
  cases h with
  | completed htaken =>
    rw [hwhole] at htaken
    have hflushed : flushesFrom 0 ((collecting time host).steps measured) = [Sink.lines whole] := by
      have hlast : reportSteps ⟨time, host, Probe.all.map measured⟩ =
          [.write (Report.mk time host (Probe.all.map measured)).pretty, .write "\n"] ++ [.flush] := rfl
      rw [hsteps, hlast, ← List.append_assoc, flushesFrom_append, written_report, flushesFrom_measures, Nat.zero_add]
      rfl
    have hstarted : started ((collecting time host).steps measured) = Probe.all := by
      rw [hsteps, started_report _ rfl]
    rw [after, hstarted, hflushed, hwhole]
    exact ⟨rfl, htaken.symm, .inr (.inr ⟨rfl, rfl⟩)⟩
  | refused done rest text hrefused hdone htext =>
    have htaken := accept_of_refused hrefused hdone htext
    have hne := accept_ne_of_refused hrefused hdone htext
    rw [hwhole] at htaken hne
    rw [hsteps] at hrefused
    rcases measures_eq_append hrefused with ⟨before, p, after, -, hstep, -⟩ | ⟨part, rfl, hpart⟩
    · cases hstep
    · have hpart' : started part = [] ∧ flushesFrom 0 part = [] := by
        rcases reportSteps_eq_append hpart with ⟨-, rfl⟩ | ⟨-, rfl⟩ | ⟨hstep, -⟩
        · exact ⟨rfl, rfl⟩
        · exact ⟨rfl, rfl⟩
        · cases hstep
      rw [started_report part hpart'.1, flushesFrom_measures, hpart'.2, ← htaken]
      exact ⟨rfl, rfl, .inl ⟨hne, rfl, rfl⟩⟩
  | unflushed done rest hunflushed hdone hlimit =>
    rw [hsteps] at hunflushed
    rcases measures_eq_append hunflushed with ⟨before, p, after, -, hstep, -⟩ | ⟨part, rfl, hpart⟩
    · cases hstep
    · rcases reportSteps_eq_append hpart with ⟨hstep, -⟩ | ⟨hstep, -⟩ | ⟨-, rfl⟩
      · cases hstep
      · cases hstep
      · rw [written_report] at hdone
        rw [flushesFrom_measures] at hlimit
        rw [after, started_report _ rfl, flushesFrom_measures, written_report]
        exact ⟨rfl, hdone.symm, .inr (.inl ⟨rfl, hlimit, rfl⟩)⟩

/-! ## Before each step -/

section

variable (hchunk : sink.chunk ≠ some 0) {s : Progress}

include hchunk

/-- Before a probe starts, those before it are done, and nothing was offered to the sink. -/
theorem reaches_measure {p : Probe} {next : Measurement → Script Report}
    (h : Reaches measured sink (collecting time host, ⟨.empty, []⟩) (.measure p next, s)) :
    ∃ before after, Probe.all = before ++ p :: after ∧ s = ⟨.empty, eventsOf measured before⟩ := by
  obtain ⟨done, hsteps, rfl⟩ := after_of_reaches hchunk h
  rw [steps_collecting] at hsteps
  rcases measures_eq_append hsteps with ⟨before, q, after, hall, hstep, rfl⟩ | ⟨part, -, hpart⟩
  · cases hstep
    refine ⟨before, after, hall, ?_⟩
    have hflushed : flushesFrom 0 (before.map Step.measure) = [] := by
      have hnone := flushesFrom_measures 0 before []
      rwa [List.append_nil] at hnone
    show Progress.mk ⟨_, _⟩ _ = _
    rw [written_measures, hflushed, started_measures]
    rfl
  · rcases reportSteps_eq_append hpart with ⟨hstep, -⟩ | ⟨hstep, -⟩ | ⟨hstep, -⟩ <;> cases hstep

/-- Before the first byte is offered to the sink, by printing or by writing, all probes are done. -/
theorem reaches_writing {script : Script Report} {text : String} {rest : List Step}
    (h : Reaches measured sink (collecting time host, ⟨.empty, []⟩) (script, s))
    (hscript : script.steps measured = .write text :: rest) : s.events = eventsOf measured Probe.all := by
  obtain ⟨done, hsteps, rfl⟩ := after_of_reaches hchunk h
  rw [steps_collecting, hscript] at hsteps
  rcases measures_eq_append hsteps with ⟨before, p, after, -, hstep, -⟩ | ⟨part, rfl, hpart⟩
  · cases hstep
  · have hstarted : started part = [] := by
      rcases reportSteps_eq_append hpart with ⟨-, rfl⟩ | ⟨-, rfl⟩ | ⟨hstep, -⟩
      · rfl
      · rfl
      · cases hstep
    show eventsOf measured (started _) = _
    rw [started_report part hstarted]

/-- Before the sink is flushed, it has taken everything, and was not flushed yet. -/
theorem reaches_flush {next : Script Report}
    (h : Reaches measured sink (collecting time host, ⟨.empty, []⟩) (.flush next, s)) :
    s.delivery = ⟨wholeOf ⟨time, host, Probe.all.map measured⟩, []⟩ := by
  obtain ⟨done, hsteps, rfl⟩ := after_of_reaches hchunk h
  rw [steps_collecting] at hsteps
  rcases measures_eq_append hsteps with ⟨before, p, after, -, hstep, -⟩ | ⟨part, rfl, hpart⟩
  · cases hstep
  · rcases reportSteps_eq_append hpart with ⟨hstep, -⟩ | ⟨hstep, -⟩ | ⟨-, rfl⟩
    · cases hstep
    · cases hstep
    · show Delivery.mk _ _ = _
      rw [written_report, flushesFrom_measures]
      rfl

end

end Script

end ProbeSuite
