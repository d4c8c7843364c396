import ProbeSuite.Proofs.Runner

/-!
# Streamed reports

* `Runner.run_streaming` : what a run leaves in the sink, wherever the sink fails.
-/

namespace ProbeSuite

namespace Runner

open Script (Reaches lineBytes linesOf)

variable {r : Runner} {sink : Sink} {c : Conditions} {f : Files}

theorem script_of_text (htext : r.config.output = .text) :
    r.script c.timestamp c.host = .streaming c.timestamp c.host := by
  unfold script
  rw [htext]

theorem whole_of_text (htext : r.config.output = .text) : r.whole c = Text.bytes (reportOf c).text := by
  unfold whole
  rw [htext]

theorem flushes_of_text (htext : r.config.output = .text) : r.flushes = 9 := by
  unfold flushes
  rw [htext]

theorem flushesFrom_of_text (htext : r.config.output = .text) :
    Script.flushesFrom 0 ((r.script c.timestamp c.host).steps c.measured) = [2, 4, 5, 7, 8, 10, 11, 13, 14] := by
  rw [script_of_text htext]
  exact Script.flushesFrom_streaming c.measured c.timestamp c.host

/-- One probe ran for the first flush that succeeded, and one for every two after it. -/
theorem started_text (htext : r.config.output = .text) (hchunk : sink.chunk ≠ some 0) :
    (r.run sink c f).events.filterMap Event.started? =
      Probe.all.take (((r.run sink c f).delivery.flushedAt.length + 1) / 2) := by
  obtain ⟨s, result, hends, hdelivery, hstarted, -⟩ := run_ends r hchunk c f
  obtain ⟨done, hevents, hflushed, hdone⟩ := hends.events_eq
  rw [hstarted, hdelivery, hevents, Script.started_eventsOf, hflushed, Script.length_flushesFrom]
  rw [script_of_text htext, Script.steps_streaming] at hdone
  have htitle : ∀ rest, Script.started (Script.lineStep Report.title :: rest) = Script.started rest :=
    Script.started_write _
  rcases hdone with rfl | ⟨step, rest, hsteps, hstep⟩
  · have hstarted : Script.started (Script.streamSteps c.measured Probe.all) = Probe.all := by
      rw [Script.streamSteps, Script.started_append, Script.started_blocks]
      rfl
    rw [htitle, hstarted, ← Script.length_flushesFrom 0, ← Script.steps_streaming c.measured c.timestamp c.host,
      Script.flushesFrom_streaming]
    rfl
  · cases done with
    | nil => rfl
    | cons d done =>
      obtain ⟨rfl, htail⟩ := List.cons.inj hsteps
      have hcount : (Script.lineStep Report.title :: done).count .flush = done.count .flush :=
        List.count_cons_of_ne (fun h => by cases h)
      rw [hcount, htitle]
      exact Script.started_of_streamSteps c.measured htail hstep

/-- A probe that was started found the lines down to its heading in the sink, flushed. -/
theorem delivered_before_text (htext : r.config.output = .text) (hchunk : sink.chunk ≠ some 0) {p : Probe}
    {next : Measurement → Script Report} {s : Script.Progress}
    (h : Reaches c.measured sink (r.script c.timestamp c.host, ⟨.empty, []⟩) (.measure p next, s)) :
    ∃ before after, Probe.all = before ++ p :: after ∧ s.events = Script.eventsOf c.measured before ∧
      s.delivery.bytes = lineBytes (Report.title :: ((before.map c.measured).flatMap linesOf ++ [p.heading])) ∧
      s.delivery.flushedAt.getLast? = some (Sink.lines s.delivery.bytes) := by
  rw [script_of_text htext] at h
  exact Script.delivered_before hchunk (fun _ => rfl) h

theorem reaches_of_started {p : Probe} (hp : p ∈ (r.run sink c f).events.filterMap Event.started?) :
    ∃ next s, Reaches c.measured sink (r.script c.timestamp c.host, ⟨.empty, []⟩) (.measure p next, s) := by
  rw [started_run] at hp
  obtain ⟨event, hevent, hstarted⟩ := List.mem_filterMap.1 hp
  cases event with
  | probeStarted q =>
    cases hstarted
    exact Script.reaches_of_started hevent List.not_mem_nil
  | _ => cases hstarted

/-- **The discipline of a streamed report.** Whatever a sink does, it is left with the longest part of the
report that it takes, or with the lines before a flush that failed. It was flushed after each heading and after
each time line that it took, and a probe started only after its heading was flushed. -/
theorem run_streaming (r : Runner) (htext : r.config.output = .text) (sink : Sink) (hchunk : sink.chunk ≠ some 0)
    (c : Conditions) (f : Files) :
    let whole := Text.bytes (reportOf c).text
    let out := r.run sink c f
    let flushes := out.delivery.flushedAt.length
    (out.delivery.bytes <+: whole ∧ Sink.lines whole = 14) ∧
      (sink.Longest whole out.delivery.bytes ∨
        sink.flushes = some flushes ∧ out.result = .error (.io sink.flushError)) ∧
      (∀ chunk, chunk ≠ some 0 → r.run { sink with chunk } c f = out) ∧
      out.delivery.flushedAt <+: [2, 4, 5, 7, 8, 10, 11, 13, 14] ∧
      ((∀ e, out.result ≠ .error (.io e)) ↔ out.delivery.bytes = whole ∧ flushes = 9) ∧
      out.events.filterMap Event.started? = Probe.all.take (min 4 ((flushes + 1) / 2)) ∧
      ∀ p,
        (p ∈ out.events.filterMap Event.started? →
          ∃ next s, Reaches c.measured sink (r.script c.timestamp c.host, ⟨.empty, []⟩) (.measure p next, s)) ∧
        ∀ next s, Reaches c.measured sink (r.script c.timestamp c.host, ⟨.empty, []⟩) (.measure p next, s) →
          ∃ before after, Probe.all = before ++ p :: after ∧ s.events = Script.eventsOf c.measured before ∧
            s.delivery.bytes =
              lineBytes (Report.title :: ((before.map c.measured).flatMap linesOf ++ [p.heading])) ∧
            s.delivery.flushedAt.getLast? = some (Sink.lines s.delivery.bytes) := by
  intro whole out flushes
  obtain ⟨s, result, hends, hdelivery, -, hio⟩ := run_ends r hchunk c f
  have hbytes := hends.bytes_eq
  have hpart := hends.bytes_isPrefix
  have hflushed := hends.flushedAt_isPrefix
  have hdelivered := (delivered_of_chunk r sink hchunk c f).1
  rw [written_script, whole_of_text htext, ← hdelivery] at hbytes hpart
  rw [flushesFrom_of_text htext, ← hdelivery] at hflushed
  rw [whole_of_text htext, flushes_of_text htext] at hdelivered
  have hsame : ∀ chunk, chunk ≠ some 0 → r.run { sink with chunk } c f = r.run sink c f := fun chunk hchunk' =>
    run_congr (Sink.write_chunk hchunk hchunk') fun _ => rfl
  refine ⟨⟨hpart, Script.lines_text _⟩, ?_, hsame, hflushed, hdelivered, ?_,
    fun p => ⟨reaches_of_started, fun next s h => delivered_before_text htext hchunk h⟩⟩
  · rcases hbytes with hbytes | ⟨hlimit, herror⟩
    · left
      show sink.Longest whole (r.run sink c f).delivery.bytes
      rw [hbytes]
      exact sink.longest_accept whole
    · exact .inr ⟨hlimit, (hio _).2 herror⟩
  · have hlength : flushes ≤ 9 := hflushed.length_le
    rw [started_text htext hchunk]
    show Probe.all.take ((flushes + 1) / 2) = _
    by_cases hfew : flushes < 8
    · rw [Nat.min_eq_right (by omega)]
    · have hall : ∀ n, 4 ≤ n → Probe.all.take n = Probe.all := fun n hn => List.take_of_length_le hn
      rw [hall _ (by omega), hall _ (by omega)]

/-- A sink with room for ten bytes, three at a time, is left with ten bytes. -/
theorem run_streaming_ten_bytes :
    let sink : Sink := ⟨Sink.reaches (some 10) none none, some 3, none, none, .bare .other⟩
    let c : Conditions := ⟨⟨0, 0, by decide, by decide⟩, ⟨"", "", 0⟩, fun _ => .zero, by decide⟩
    (Runner.run ⟨.default, none⟩ sink c (Files.fresh [])).delivery.bytes.length = 10 := by
  intro sink c
  obtain ⟨⟨hpart, hlines⟩, hstop, -⟩ :=
    run_streaming ⟨.default, none⟩ rfl sink (by decide) c (Files.fresh [])
  rcases hstop with hlongest | ⟨hlimit, -⟩
  · have hfull : ∀ taken, sink.isFull taken = decide (10 ≤ taken.length) := by
      intro taken
      simp [sink, Sink.reaches]
    generalize (Runner.run ⟨.default, none⟩ sink c (Files.fresh [])).delivery.bytes = bytes at hpart hlongest
    have hwhole : 14 ≤ (Text.bytes (reportOf c).text).length := hlines ▸ List.count_le_length
    have hle : bytes.length ≤ 10 := by
      refine Nat.not_lt.1 fun hmore => ?_
      have hroom := hlongest.room (bytes.take 10) (List.take_prefix 10 bytes) fun h => by
        have hlength := congrArg List.length h
        rw [List.length_take] at hlength
        omega
      rw [hfull, List.length_take] at hroom
      simp at hroom
      omega
    have hge := hlongest.full fun h => by
      rw [h] at hle
      omega
    rw [hfull] at hge
    exact Nat.le_antisymm hle (by simpa using hge)
  · cases hlimit

end Runner

end ProbeSuite
