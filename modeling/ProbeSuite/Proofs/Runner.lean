import ProbeSuite.Proofs.Script.Collecting
import ProbeSuite.Proofs.Script.Streaming
import ProbeSuite.Runner

/-!
# Runs

* `Runner.reportOf`, `whole`, `flushes` : the report of a run, its bytes, and how often it is flushed;
* `Runner.played` : what the script of a run does to the sink;
* `Runner.run_of_error`, `run_of_ok` : a run by the end of its script; `exists_io_of_played` : how a script fails;
* `Runner.run_ends` : the parts of a run that its script decides;
* `Runner.delivered_iff` : a run fails in its output unless the whole report is taken and flushed.
-/

namespace ProbeSuite

/-- The probe that an event reports to have started. -/
def Event.started? : Event → Option Probe
  | .probeStarted p => some p
  | _ => none

theorem Script.started_eventsOf (measured : Probe → Measurement) (probes : List Probe) :
    (eventsOf measured probes).filterMap Event.started? = probes := by
  induction probes with
  | nil => rfl
  | cons p ps ih =>
    have hcons : eventsOf measured (p :: ps) = [.probeStarted p, .probeFinished (measured p)] ++ eventsOf measured ps :=
      List.flatMap_cons
    rw [hcons, List.filterMap_append, ih]
    rfl

theorem History.started_append (h : History) (f : Files) (r : Report) :
    (h.append f r).2.1.filterMap Event.started? = [] := by
  unfold append
  split
  · rfl
  · next reports hload =>
    have hrotation : (h.rotation (reports ++ [r])).filterMap Event.started? = [] := by
      unfold rotation
      split <;> rfl
    have hsave : (h.save f (h.keep (reports ++ [r]))).2.1.filterMap Event.started? = [] := by
      unfold save
      split
      · rfl
      · split
        · rfl
        · split <;> rfl
    dsimp only
    rw [List.filterMap_append, hrotation, hsave]
    rfl

namespace Runner

variable (r : Runner) (sink : Sink) (c : Conditions) (f : Files)

/-! ## The report -/

/-- The report of a run. -/
def reportOf : Report := ⟨c.timestamp, c.host, Probe.all.map c.measured⟩

/-- The bytes of the report of a run. -/
def whole : List UInt8 :=
  match r.config.output with
  | .text => Text.bytes (reportOf c).text
  | .json => Text.bytes ((reportOf c).pretty ++ "\n")

/-- How often the report of a run is flushed. -/
def flushes : Nat :=
  match r.config.output with
  | .text => 9
  | .json => 1

theorem written_script : Script.written ((r.script c.timestamp c.host).steps c.measured) = r.whole c := by
  unfold script whole
  cases r.config.output with
  | text => exact Script.written_streaming c.measured c.timestamp c.host fun _ => rfl
  | json => exact Script.written_collecting c.measured c.timestamp c.host

theorem length_flushesFrom_script :
    (Script.flushesFrom 0 ((r.script c.timestamp c.host).steps c.measured)).length = r.flushes := by
  unfold script flushes
  cases r.config.output with
  | text => exact congrArg List.length (Script.flushesFrom_streaming c.measured c.timestamp c.host)
  | json => exact Script.length_flushesFrom_collecting c.measured c.timestamp c.host

theorem outcome_script : (r.script c.timestamp c.host).outcome c.measured = reportOf c := by
  unfold script
  cases r.config.output with
  | text => exact Script.outcome_streaming c.measured c.timestamp c.host
  | json => exact Script.outcome_collecting c.measured c.timestamp c.host

/-! ## The run -/

/-- What the script of a run does to the sink, and its report. -/
def played : Script.Progress × Except Failure Report :=
  (r.script c.timestamp c.host).play sink c.measured ⟨.empty, []⟩

variable {r sink c f} {s : Script.Progress}

theorem run_of_error {failure : Failure} (h : r.played sink c = (s, .error failure)) :
    r.run sink c f = ⟨f, s.delivery, s.events, .error failure⟩ := by
  unfold played at h
  unfold run
  rw [h]
  rfl

theorem run_of_ok {report : Report} (h : r.played sink c = (s, .ok report)) :
    r.run sink c f = ⟨(r.record f report).1, s.delivery, s.events ++ complete report :: (r.record f report).2.1,
      match (r.record f report).2.2 with
      | .ok () => .ok report
      | .error fault => .error (.history fault)⟩ := by
  unfold played at h
  unfold run conclude
  rw [h]
  dsimp only
  rcases r.record f report with ⟨g, events, fault | _⟩ <;> rfl

/-- A script fails with an error of the sink, if it fails. -/
theorem exists_io_of_played {failure : Failure} (h : r.played sink c = (s, .error failure)) :
    ∃ e, failure = .io e := by
  unfold played at h
  rw [Script.play_eq, Prod.mk.injEq] at h
  obtain ⟨-, hresult⟩ := h
  generalize (Script.performAll c.measured sink _ _).2 = result at hresult
  cases result with
  | error e =>
    cases hresult
    exact ⟨e, rfl⟩
  | ok _ => cases hresult

theorem run_delivery : (r.run sink c f).delivery = (r.played sink c).1.delivery := by
  rcases h : r.played sink c with ⟨s, e | report⟩
  · rw [run_of_error h]
  · rw [run_of_ok h]

/-- **A run fails in its output** exactly when its script does, with the same error. -/
theorem io_iff {e : IoError} :
    (r.run sink c f).result = .error (.io e) ↔ (r.played sink c).2 = .error (.io e) := by
  rcases h : r.played sink c with ⟨s, failure | report⟩
  · rw [run_of_error h]
  · rw [run_of_ok h]
    dsimp only
    split <;> simp

theorem started_record (report : Report) : (r.record f report).2.1.filterMap Event.started? = [] := by
  unfold record
  split
  · split
    · exact History.started_append _ f report
    · rfl
  · rfl

theorem started_run : (r.run sink c f).events.filterMap Event.started? =
    (r.played sink c).1.events.filterMap Event.started? := by
  rcases h : r.played sink c with ⟨s, e | report⟩
  · rw [run_of_error h]
  · rw [run_of_ok h, List.filterMap_append]
    show _ ++ (r.record f report).2.1.filterMap Event.started? = _
    rw [started_record, List.append_nil]

/-- **How a run leaves the sink** : as the steps of its script end. -/
theorem run_ends (r : Runner) (hchunk : sink.chunk ≠ some 0) (c : Conditions) (f : Files) : ∃ s result,
    Script.Ends c.measured sink ((r.script c.timestamp c.host).steps c.measured) s result ∧
      (r.run sink c f).delivery = s.delivery ∧
      (r.run sink c f).events.filterMap Event.started? = s.events.filterMap Event.started? ∧
      ∀ e, (r.run sink c f).result = .error (.io e) ↔ result = .error e := by
  obtain ⟨result, hends, hresult⟩ := Script.play_ends c.measured hchunk (r.script c.timestamp c.host)
  refine ⟨_, result, hends, run_delivery, started_run, fun e => ?_⟩
  have hplayed : (r.played sink c).2 = (result.mapError Failure.io).map
      fun _ => (r.script c.timestamp c.host).outcome c.measured := hresult
  rw [io_iff, hplayed]
  cases result <;> simp [Except.map, Except.mapError]

theorem run_congr {sink' : Sink} (hwrite : ∀ text d, sink.write text d = sink'.write text d)
    (hflush : ∀ d, sink.flush d = sink'.flush d) : r.run sink c f = r.run sink' c f := by
  unfold run
  rw [Script.play_congr c.measured sink hwrite hflush]

/-- A run fails in its output unless the sink takes the whole report and every flush succeeds. -/
theorem delivered_of_chunk (r : Runner) (sink : Sink) (hchunk : sink.chunk ≠ some 0) (c : Conditions) (f : Files) :
    ((∀ e, (r.run sink c f).result ≠ .error (.io e)) ↔
      (r.run sink c f).delivery.bytes = r.whole c ∧ (r.run sink c f).delivery.flushedAt.length = r.flushes) ∧
    ∀ e, (r.run sink c f).result = .error (.io e) →
      e = sink.error ∧ sink.isFull (r.run sink c f).delivery.bytes ∨
        e = sink.flushError ∧ sink.flushes = some (r.run sink c f).delivery.flushedAt.length := by
  obtain ⟨s, result, hends, hdelivery, -, hio⟩ := run_ends r hchunk c f
  have hok := hends.ok_iff
  rw [written_script, length_flushesFrom_script, ← hdelivery] at hok
  refine ⟨Iff.trans ?_ hok, fun e he => ?_⟩
  · constructor
    · intro hnone
      cases result with
      | error e => exact absurd ((hio e).2 rfl) (hnone e)
      | ok _ => rfl
    · rintro rfl e he
      exact nomatch (hio e).1 he
  · rw [hdelivery]
    have herror := (hio e).1 he
    cases hends with
    | completed => cases herror
    | refused done rest text hsteps hdone htext =>
      cases herror
      exact .inl ⟨rfl, Sink.isFull_accept htext⟩
    | unflushed done rest hsteps hdone hlimit =>
      cases herror
      exact .inr ⟨rfl, hlimit⟩

/-- **A run fails in its output** unless the sink takes the whole report and every flush succeeds; the error
is the one of the sink. -/
theorem delivered_iff (r : Runner) (sink : Sink) (c : Conditions) (f : Files) :
    ((∀ e, (r.run sink c f).result ≠ .error (.io e)) ↔
      (r.run sink c f).delivery.bytes = r.whole c ∧ (r.run sink c f).delivery.flushedAt.length = r.flushes) ∧
    ∀ e, (r.run sink c f).result = .error (.io e) →
      e = sink.error ∧ (∀ bs, sink.call (r.run sink c f).delivery.bytes bs = []) ∨
        e = sink.flushError ∧ sink.flushes = some (r.run sink c f).delivery.flushedAt.length := by
  by_cases hchunk : sink.chunk = some 0
  -- a sink whose calls take nothing cannot be told from one that is full
  · rw [run_congr (r := r) (f := f) (c := c) (Sink.write_of_chunk_zero hchunk) fun _ => rfl]
    obtain ⟨hok, hcause⟩ :=
      delivered_of_chunk r { sink with isFull := fun _ => true, chunk := none } (by nofun) c f
    refine ⟨hok, fun e he => ?_⟩
    rcases hcause e he with ⟨herror, -⟩ | hflush
    · exact .inl ⟨herror, Sink.call_of_chunk_zero hchunk _⟩
    · exact .inr hflush
  · obtain ⟨hok, hcause⟩ := delivered_of_chunk r sink hchunk c f
    refine ⟨hok, fun e he => ?_⟩
    rcases hcause e he with ⟨herror, hfull⟩ | hflush
    · exact .inl ⟨herror, Sink.call_of_isFull hfull⟩
    · exact .inr hflush

theorem not_io_unlimited (r : Runner) (c : Conditions) (f : Files) (e : IoError) :
    (r.run .unlimited c f).result ≠ .error (.io e) := by
  intro he
  rcases (delivered_iff r .unlimited c f).2 e he with ⟨-, hcall⟩ | ⟨-, hlimit⟩
  · have htaken : ∀ taken, Sink.unlimited.call taken [0] = [0] := fun _ => rfl
    have hnone := hcall [0]
    rw [htaken] at hnone
    cases hnone
  · cases hlimit

theorem whole_ne_nil (r : Runner) (c : Conditions) : r.whole c ≠ [] := by
  have hjson : Text.bytes ((reportOf c).pretty ++ "\n") ≠ [] := by
    have hend : Text.bytes "\n" = [10] := by rw [Text.bytes_eq_flatMap]; rfl
    rw [Text.bytes_append, hend]
    exact List.append_ne_nil_of_right_ne_nil _ (List.cons_ne_nil _ _)
  have htext : Text.bytes (reportOf c).text ≠ [] := by
    intro hnil
    have hlines := Script.lines_text (reportOf c)
    rw [hnil] at hlines
    cases hlines
  unfold whole
  split
  · exact htext
  · exact hjson

/-- A sink that is full from the start takes no report. -/
theorem not_delivered_of_isFull (hchunk : sink.chunk ≠ some 0) (hfull : sink.isFull [] = true) :
    (r.run sink c f).delivery.bytes ≠ r.whole c := by
  obtain ⟨s, result, hends, hdelivery, -⟩ := run_ends r hchunk c f
  rw [hdelivery, hends.bytes_eq_nil hfull]
  exact (whole_ne_nil r c).symm

end Runner

end ProbeSuite
