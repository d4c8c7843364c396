import ProbeSuite.Proofs.Binary64.Positional
import ProbeSuite.Proofs.Script.Ends
import ProbeSuite.Proofs.Script.Reaches

/-!
# The streamed report

* `Script.block` : the steps of one probe;
* `Script.steps_streaming`, `written_streaming` : the steps of the streamed report, and the text they write;
* `Script.flushesFrom_streaming` : the numbers of lines at which they flush;
* `Script.started_of_streamSteps` : how many probes ran, by the flushes that succeeded;
* `Script.delivered_before` : what the sink took before a probe starts.
-/

namespace ProbeSuite

/-! ## Lines without line ends -/

theorem Probe.no_lineEnd_heading (p : Probe) : '\n' ∉ p.heading.toList := by cases p <;> decide

theorem Decimal.no_lineEnd_positional (d : Decimal) : '\n' ∉ d.positional := by
  obtain ⟨p, hp, -⟩ := d.exists_plain
  rw [hp]
  intro h
  rcases p.isDigit_or_point h with hdigit | hpoint
  · exact absurd hdigit (by decide)
  · exact absurd hpoint (by decide)

namespace Measurement

theorem no_lineEnd_timeLine (m : Measurement) : '\n' ∉ m.timeLine.toList := by
  have hlabel : '\n' ∉ ("   Time: " : String).toList := by decide
  have hnumber : '\n' ∉ (String.ofList m.elapsed.seconds.text).toList :=
    String.toList_ofList.symm ▸ Decimal.no_lineEnd_positional _
  rw [timeLine, String.toList_append, List.mem_append, Duration.secondsText]
  exact not_or_intro hlabel hnumber

theorem no_lineEnd_resultLine (m : Measurement) : '\n' ∉ m.resultLine.toList := by
  have hnumber : '\n' ∉ Nat.toDigits 10 m.value.toNat := by
    intro h
    exact absurd (Nat.isDigit_of_mem_toDigits (by decide) (by decide) h) (by decide)
  unfold resultLine
  rcases m.probe <;> simp [Probe.resultLabel, hnumber] <;> decide

end Measurement

namespace Script

variable {α : Type} (measured : Probe → Measurement)

/-! ## Steps -/

/-- A line that is written. -/
def lineStep (text : String) : Step := .write (text ++ "\n")

/-- The steps of a probe. -/
def block (p : Probe) : List Step :=
  [lineStep p.heading, .flush, .measure p, lineStep (measured p).resultLine, lineStep (measured p).timeLine, .flush]

/-- The steps of the streamed report. -/
def streamSteps (probes : List Probe) : List Step :=
  probes.flatMap (block measured) ++ [lineStep Report.footer, .flush]

theorem steps_streamProbes (probes : List Probe) (finish : List Measurement → Script Report) :
    (streamProbes probes finish).steps measured =
        probes.flatMap (block measured) ++ (finish (probes.map measured)).steps measured ∧
      (streamProbes probes finish).outcome measured = (finish (probes.map measured)).outcome measured := by
  induction probes generalizing finish with
  | nil => exact ⟨rfl, rfl⟩
  | cons p ps ih =>
    obtain ⟨hsteps, houtcome⟩ := ih fun ms => finish (measured p :: ms)
    refine ⟨?_, houtcome⟩
    rw [List.flatMap_cons, List.append_assoc, List.map_cons, ← hsteps]
    rfl

variable (time : Timestamp) (host : Host)

theorem steps_streaming :
    (streaming time host).steps measured = lineStep Report.title :: streamSteps measured Probe.all :=
  congrArg (lineStep Report.title :: ·) (steps_streamProbes measured Probe.all _).1

theorem outcome_streaming : (streaming time host).outcome measured = ⟨time, host, Probe.all.map measured⟩ :=
  (steps_streamProbes measured Probe.all fun ms => line Report.footer <| .flush <| .done ⟨time, host, ms⟩).2

/-! ## The text -/

theorem bytes_join (texts : List String) : Text.bytes (String.join texts) = texts.flatMap Text.bytes := by
  induction texts with
  | nil => rw [Text.bytes_eq_flatMap]; rfl
  | cons t ts ih => rw [String.join_cons, Text.bytes_append, ih, List.flatMap_cons]

/-- The bytes of ended lines. -/
def lineBytes (lines : List String) : List UInt8 := lines.flatMap fun l => Text.bytes (l ++ "\n")

theorem lineBytes_nil : lineBytes [] = [] := rfl

theorem lineBytes_cons (l : String) (ls : List String) :
    lineBytes (l :: ls) = Text.bytes (l ++ "\n") ++ lineBytes ls := List.flatMap_cons

theorem lineBytes_append (ks ls : List String) : lineBytes (ks ++ ls) = lineBytes ks ++ lineBytes ls :=
  List.flatMap_append

theorem written_lineStep (text : String) (rest : List Step) :
    written (lineStep text :: rest) = Text.bytes (text ++ "\n") ++ written rest := written_cons _ _

/-- The lines of a probe. -/
def linesOf (m : Measurement) : List String := [m.probe.heading, m.resultLine, m.timeLine]

theorem written_block {p : Probe} (hprobe : (measured p).probe = p) (rest : List Step) :
    written (block measured p ++ rest) = lineBytes (linesOf (measured p)) ++ written rest := by
  unfold block linesOf
  simp only [List.cons_append, List.nil_append, written_lineStep, written_flush, written_measure, lineBytes_cons,
    lineBytes_nil, List.append_nil, List.append_assoc, hprobe]

theorem written_blocks (hprobe : ∀ p, (measured p).probe = p) (probes : List Probe) (rest : List Step) :
    written (probes.flatMap (block measured) ++ rest) =
      lineBytes ((probes.map measured).flatMap linesOf) ++ written rest := by
  induction probes with
  | nil => rfl
  | cons p ps ih =>
    rw [List.flatMap_cons, List.append_assoc, written_block measured (hprobe p), ih, List.map_cons,
      List.flatMap_cons, lineBytes_append, List.append_assoc]

theorem bytes_text (report : Report) : Text.bytes report.text = lineBytes report.lines := by
  rw [Report.text, bytes_join, List.flatMap_map]
  rfl

theorem written_streaming (hprobe : ∀ p, (measured p).probe = p) :
    written ((streaming time host).steps measured) =
      Text.bytes (Report.text ⟨time, host, Probe.all.map measured⟩) := by
  have hlines : Report.lines ⟨time, host, Probe.all.map measured⟩ =
      Report.title :: ((Probe.all.map measured).flatMap linesOf ++ [Report.footer]) := rfl
  rw [bytes_text, hlines, steps_streaming, written_lineStep, streamSteps, written_blocks measured hprobe,
    written_lineStep, written_flush, written_nil, lineBytes_cons, lineBytes_append, lineBytes_cons, lineBytes_nil]

/-! ## Lines -/

theorem lines_bytes_line {text : String} (htext : '\n' ∉ text.toList) :
    Sink.lines (Text.bytes (text ++ "\n")) = 1 := by
  have hlast : ("\n" : String).toList = ['\n'] := rfl
  rw [Sink.lines, Text.count_bytes, String.toList_append, List.count_append, List.count_eq_zero.2 htext, hlast]
  rfl

theorem lines_lineBytes {ls : List String} (h : ∀ l ∈ ls, '\n' ∉ l.toList) :
    Sink.lines (lineBytes ls) = ls.length := by
  induction ls with
  | nil => rfl
  | cons l ls ih =>
    have hline := lines_bytes_line (h l List.mem_cons_self)
    have hlines := ih fun k hk => h k (List.mem_cons_of_mem l hk)
    unfold Sink.lines at hline hlines ⊢
    rw [lineBytes_cons, List.count_append, hline, hlines, List.length_cons]
    omega

theorem no_lineEnd_linesOf (m : Measurement) : ∀ l ∈ linesOf m, '\n' ∉ l.toList := by
  intro l hl
  simp only [linesOf, List.mem_cons, List.not_mem_nil, or_false] at hl
  rcases hl with rfl | rfl | rfl
  · exact m.probe.no_lineEnd_heading
  · exact m.no_lineEnd_resultLine
  · exact m.no_lineEnd_timeLine

/-- A text report has as many lines as it should: no line has a line end of its own. -/
theorem lines_text (report : Report) :
    Sink.lines (Text.bytes report.text) = 3 * report.measurements.length + 2 := by
  have hlines : report.lines = Report.title :: (report.measurements.flatMap linesOf ++ [Report.footer]) := rfl
  have hlength : report.lines.length = 3 * report.measurements.length + 2 := by
    have hprobes : (report.measurements.flatMap linesOf).length = 3 * report.measurements.length := by
      induction report.measurements with
      | nil => rfl
      | cons m ms ih =>
        have hthree : (linesOf m).length = 3 := rfl
        rw [List.flatMap_cons, List.length_append, ih, hthree, List.length_cons]
        omega
    rw [hlines, List.length_cons, List.length_append, hprobes]
    rfl
  rw [bytes_text, lines_lineBytes, hlength]
  intro l hl
  rw [hlines, List.mem_cons, List.mem_append, List.mem_singleton, List.mem_flatMap] at hl
  rcases hl with rfl | ⟨m, -, hm⟩ | rfl
  · decide
  · exact no_lineEnd_linesOf m l hm
  · decide

theorem flushesFrom_lineStep {text : String} (htext : '\n' ∉ text.toList) (n : Nat) (rest : List Step) :
    flushesFrom n (lineStep text :: rest) = flushesFrom (n + 1) rest := by
  rw [← lines_bytes_line htext]
  rfl

theorem flushesFrom_block (p : Probe) (n : Nat) (rest : List Step) :
    flushesFrom n (block measured p ++ rest) = (n + 1) :: (n + 3) :: flushesFrom (n + 3) rest := by
  have hmeasure : ∀ n rest, flushesFrom n (.measure p :: rest) = flushesFrom n rest := fun _ _ => rfl
  have hflush : ∀ n rest, flushesFrom n (.flush :: rest) = n :: flushesFrom n rest := fun _ _ => rfl
  simp only [block, List.cons_append, List.nil_append, flushesFrom_lineStep p.no_lineEnd_heading,
    flushesFrom_lineStep (measured p).no_lineEnd_resultLine, flushesFrom_lineStep (measured p).no_lineEnd_timeLine,
    hmeasure, hflush]

theorem flushesFrom_streaming :
    flushesFrom 0 ((streaming time host).steps measured) = [2, 4, 5, 7, 8, 10, 11, 13, 14] := by
  have hlast : flushesFrom 13 [lineStep Report.footer, .flush] = [14] :=
    flushesFrom_lineStep (by decide) 13 [.flush]
  rw [steps_streaming, flushesFrom_lineStep (by decide)]
  simp only [streamSteps, Probe.all, List.flatMap_cons, List.flatMap_nil, List.append_assoc, List.nil_append,
    flushesFrom_block, Nat.reduceAdd, hlast]

/-! ## Probes -/

theorem started_blocks (probes : List Probe) : started (probes.flatMap (block measured)) = probes := by
  induction probes with
  | nil => rfl
  | cons p ps ih =>
    rw [List.flatMap_cons, started_append, ih]
    rfl

theorem count_flush_blocks (probes : List Probe) :
    (probes.flatMap (block measured)).count .flush = 2 * probes.length := by
  induction probes with
  | nil => rfl
  | cons p ps ih =>
    have hblock : (block measured p).count .flush = 2 := by simp [block, lineStep]
    rw [List.flatMap_cons, List.count_append, ih, hblock, List.length_cons]
    omega

/-- Before a step some probes are done, and it is a step of the next one or of the footer. -/
theorem streamSteps_eq_append {probes : List Probe} {done rest : List Step} {step : Step}
    (h : streamSteps measured probes = done ++ step :: rest) :
    ∃ before after part, probes = before ++ after ∧ done = before.flatMap (block measured) ++ part ∧
      (after = [] ∧ [lineStep Report.footer, .flush] = part ++ step :: rest ∨
        ∃ p ps tail, after = p :: ps ∧ block measured p = part ++ step :: tail) := by
  induction probes generalizing done with
  | nil => exact ⟨[], [], done, rfl, rfl, .inl ⟨rfl, h⟩⟩
  | cons p ps ih =>
    have hsplit : (∃ part, done = block measured p ++ part ∧ streamSteps measured ps = part ++ step :: rest) ∨
        ∃ tail, block measured p = done ++ step :: tail := by
      rw [streamSteps, List.flatMap_cons, List.append_assoc] at h
      -- `done` reaches past the first block, ends with it, or ends within it
      rcases List.append_eq_append_iff.1 h with ⟨part, hdone, hpart⟩ | ⟨_ | ⟨s, tail⟩, hblock, htail⟩
      · exact .inl ⟨part, hdone, hpart⟩
      · exact .inl ⟨[], by rw [hblock, List.append_nil, List.append_nil], htail.symm⟩
      · obtain ⟨rfl, -⟩ := List.cons.inj htail
        exact .inr ⟨tail, hblock⟩
    rcases hsplit with ⟨part, rfl, hpart⟩ | ⟨tail, hblock⟩
    · obtain ⟨before, after, part', rfl, rfl, hstep⟩ := ih hpart
      exact ⟨p :: before, after, part', rfl, by rw [List.flatMap_cons, List.append_assoc], hstep⟩
    · exact ⟨[], p :: ps, done, rfl, rfl, .inr ⟨p, ps, tail, rfl, hblock⟩⟩

/-- Before a step that is no measurement, one probe ran for the first flush and one for every two after it. -/
theorem started_of_streamSteps {probes : List Probe} {done rest : List Step} {step : Step}
    (h : streamSteps measured probes = done ++ step :: rest) (hstep : ∀ p, step ≠ .measure p) :
    started done = probes.take ((done.count .flush + 1) / 2) := by
  obtain ⟨before, after, part, rfl, rfl, hpart⟩ := streamSteps_eq_append measured h
  have hhalf : ∀ n, (2 * before.length + n + 1) / 2 = before.length + (n + 1) / 2 := fun n => by omega
  rw [started_append, started_blocks, List.count_append, count_flush_blocks, hhalf, List.take_length_add_append]
  congr 1
  rcases hpart with ⟨rfl, hfooter⟩ | ⟨p, ps, tail, rfl, hblock⟩
  · rcases part with _ | ⟨s₁, _ | ⟨s₂, part⟩⟩ <;> simp [lineStep] at hfooter
    · rfl
    · obtain ⟨rfl, -⟩ := hfooter
      rfl
  · rcases part with _ | ⟨s₁, _ | ⟨s₂, _ | ⟨s₃, _ | ⟨s₄, _ | ⟨s₅, _ | ⟨s₆, part⟩⟩⟩⟩⟩⟩ <;>
      simp [block] at hblock
    · rfl
    · obtain ⟨rfl, -⟩ := hblock
      simp [started, lineStep]
    · exact absurd hblock.2.2.1.symm (hstep p)
    · obtain ⟨rfl, rfl, rfl, -⟩ := hblock
      simp [started, lineStep]
    · obtain ⟨rfl, rfl, rfl, rfl, -⟩ := hblock
      simp [started, lineStep]
    · obtain ⟨rfl, rfl, rfl, rfl, rfl, -⟩ := hblock
      simp [started, lineStep]

/-- Before a probe starts, those before it are done, and its heading is written and flushed. -/
theorem done_of_streamSteps {probes : List Probe} {done rest : List Step} {p : Probe}
    (h : streamSteps measured probes = done ++ .measure p :: rest) :
    ∃ before after, probes = before ++ p :: after ∧
      done = before.flatMap (block measured) ++ [lineStep p.heading, .flush] := by
  obtain ⟨before, after, part, rfl, rfl, hpart⟩ := streamSteps_eq_append measured h
  rcases hpart with ⟨rfl, hfooter⟩ | ⟨q, ps, tail, rfl, hblock⟩
  · rcases part with _ | ⟨s₁, _ | ⟨s₂, part⟩⟩ <;> simp [lineStep] at hfooter
  · rcases part with _ | ⟨s₁, _ | ⟨s₂, _ | ⟨s₃, _ | ⟨s₄, _ | ⟨s₅, _ | ⟨s₆, part⟩⟩⟩⟩⟩⟩ <;>
      simp [block, lineStep] at hblock
    obtain ⟨rfl, rfl, rfl, -⟩ := hblock
    exact ⟨before, ps, rfl, rfl⟩

variable {measured time host}

/-- What the sink took before a probe starts: the lines down to the heading of the probe, flushed. -/
theorem delivered_before {sink : Sink} (hchunk : sink.chunk ≠ some 0) (hprobe : ∀ p, (measured p).probe = p)
    {p : Probe} {next : Measurement → Script Report} {s : Progress}
    (h : Reaches measured sink (streaming time host, ⟨.empty, []⟩) (.measure p next, s)) :
    ∃ before after, Probe.all = before ++ p :: after ∧ s.events = eventsOf measured before ∧
      s.delivery.bytes = lineBytes (Report.title :: ((before.map measured).flatMap linesOf ++ [p.heading])) ∧
      s.delivery.flushedAt.getLast? = some (Sink.lines s.delivery.bytes) := by
  obtain ⟨done, hsteps, hafter⟩ := after_of_reaches hchunk h
  rw [steps_streaming] at hsteps
  cases done with
  | nil => cases hsteps
  | cons d done =>
    obtain ⟨rfl, htail⟩ := List.cons.inj hsteps
    obtain ⟨before, after, hall, rfl⟩ := done_of_streamSteps measured htail
    have hlast : lineStep Report.title :: (before.flatMap (block measured) ++ [lineStep p.heading, .flush]) =
        lineStep Report.title :: (before.flatMap (block measured) ++ [lineStep p.heading]) ++ [.flush] := by simp
    have hstarted : started (lineStep Report.title :: (before.flatMap (block measured) ++ [lineStep p.heading])) =
        before := by
      rw [lineStep, started_write, started_append, started_blocks]
      exact List.append_nil _
    have hwritten : written (lineStep Report.title :: (before.flatMap (block measured) ++ [lineStep p.heading])) =
        lineBytes (Report.title :: ((before.map measured).flatMap linesOf ++ [p.heading])) := by
      rw [written_lineStep, written_blocks measured hprobe, written_lineStep, written_nil, lineBytes_cons,
        lineBytes_append, lineBytes_cons, lineBytes_nil]
    rw [hlast, after_flush, hstarted, hwritten] at hafter
    cases hafter
    exact ⟨before, after, hall, rfl, rfl, List.getLast?_concat⟩

end Script

end ProbeSuite
