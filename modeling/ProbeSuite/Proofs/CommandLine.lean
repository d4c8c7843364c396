import ProbeSuite.CommandLine
import ProbeSuite.Proofs.Runner.Recording

/-!
# Processes

* `Script.not_isLogged_play` : no event of a script is logged;
* `Runner.delivery_isPrefix` : a sink is left with the front of the report;
* `CommandLine.runner` : the runner of every process;
* `CommandLine.run_of_error`, `run_of_ok` : a process by the end of its script;
* `CommandLine.played_congr` : the script does the same to standard output if the probes take as long;
* `CommandLine.run_isolated` : a process depends on nothing else, and changes nothing else.
-/

namespace ProbeSuite

/-! ## Texts on one line -/

namespace IoError

/-- Whether the text of an error is on one line. -/
def OneLine (e : IoError) : Prop := '\n' ∉ e.message.toList

/-- The errors of the operating system are on one line. -/
theorem oneLine_os (errno : Errno) : (os errno).OneLine := by
  have hmessage : (os errno).message = errno.text ++ " (os error " ++ toString errno.number ++ ")" := rfl
  have hnumber : '\n' ∉ Nat.toDigits 10 errno.number := fun h => absurd (Json.isDigit_toDigits h) (by decide)
  rw [OneLine, hmessage]
  simp [errno.oneLine, hnumber]

theorem oneLine_writeZero : writeZero.OneLine := by
  unfold OneLine
  decide +kernel

theorem OneLine.friendly {e : IoError} (h : e.OneLine) : '\n' ∉ (Failure.io e).friendly.toList := by
  have hclosed : '\n' ∉ ("Output stream closed before the report was written." : String).toList := by decide
  have hclass : '\n' ∉ ("I/O error: " : String).toList := by decide
  have hfriendly : (Failure.io e).friendly =
      if e.isBrokenPipe then "Output stream closed before the report was written."
      else "I/O error: " ++ e.message := rfl
  rw [hfriendly]
  split
  · exact hclosed
  · rw [String.toList_append, List.mem_append]
    exact not_or_intro hclass h

end IoError

/-! ## Events -/

namespace Script

open CommandLine (isLogged)

variable {sink : Sink} {measured : Probe → Measurement}

theorem not_isLogged_play {α : Type} (script : Script α) (s : Progress)
    (hs : ∀ event ∈ s.events, isLogged event = false) :
    ∀ event ∈ (script.play sink measured s).1.events, isLogged event = false := by
  induction script generalizing s with
  | done a => exact hs
  | write text next ih =>
    rw [play]
    rcases sink.write text s.delivery with ⟨d, e | _⟩
    · exact hs
    · exact ih _ hs
  | print v next ih =>
    rw [play]
    rcases Json.print sink v s.delivery with ⟨d, e | _⟩
    · exact hs
    · exact ih _ hs
  | flush next ih =>
    rw [play]
    rcases sink.flush s.delivery with ⟨d, e | _⟩
    · exact hs
    · exact ih _ hs
  | measure p next ih =>
    apply ih
    intro event hevent
    rcases List.mem_append.1 hevent with hbefore | hnew
    · exact hs event hbefore
    · simp only [List.mem_cons, List.not_mem_nil, or_false] at hnew
      rcases hnew with rfl | rfl
      · rfl
      · rfl

end Script

namespace Runner

theorem delivery_isPrefix (r : Runner) (sink : Sink) (c : Conditions) (f : Files) :
    (r.run sink c f).delivery.bytes <+: r.whole c := by
  have hfront : ∀ sink : Sink, sink.chunk ≠ some 0 → (r.run sink c f).delivery.bytes <+: r.whole c := by
    intro sink hchunk
    obtain ⟨s, result, hends, hdelivery, -⟩ := run_ends r hchunk c f
    rw [hdelivery, ← written_script]
    exact hends.bytes_isPrefix
  by_cases hchunk : sink.chunk = some 0
  · rw [run_congr (Sink.write_of_chunk_zero hchunk) fun _ => rfl]
    exact hfront _ nofun
  · exact hfront sink hchunk

end Runner

namespace CommandLine

open Runner (reportOf)

variable {args args' : List String} {e e' : Environment} {out : Sink} {c c' : Conditions} {f f' : Files}
  {s : Script.Progress} {error : IoError} {report : Report}

/-- The runner of every process. -/
def runner : Runner := ⟨.default, none⟩

theorem run_eq (args : List String) (e : Environment) (out : Sink) (c : Conditions) (f : Files) :
    run args e out c f =
      let o := runner.run out c f
      ⟨exitCode o.result, o.delivery, o.events.filter isLogged, complaint o.result, o.files⟩ := rfl

theorem not_isLogged_played (h : (runner.played out c).1 = s) : s.events.filter isLogged = [] := by
  rw [List.filter_eq_nil_iff, ← h]
  intro event hevent
  rw [Script.not_isLogged_play _ _ (fun _ hnone => absurd hnone List.not_mem_nil) event hevent]
  exact Bool.false_ne_true

theorem run_of_error (h : runner.played out c = (s, .error (.io error))) :
    run args e out c f = ⟨1, s.delivery, [], (Failure.io error).friendly ++ "\n", f⟩ := by
  rw [run_eq, Runner.run_of_error h]
  dsimp only
  rw [not_isLogged_played (congrArg Prod.fst h)]
  rfl

theorem run_of_ok (h : runner.played out c = (s, .ok report)) :
    run args e out c f = ⟨0, s.delivery, [], "", f⟩ := by
  have hrecord : runner.record f report = (f, [], .ok ()) := rfl
  rw [run_eq, Runner.run_of_ok h, hrecord]
  dsimp only
  rw [List.filter_append, not_isLogged_played (congrArg Prod.fst h)]
  rfl

/-- The script does the same to standard output if the probes take as long. -/
theorem played_congr (out : Sink) (h : c'.elapsed = c.elapsed) : (runner.played out c').1 = (runner.played out c).1 ∧
    (runner.played out c').2.map (fun _ => ()) = (runner.played out c).2.map fun _ => () := by
  have hmeasured : c'.measured = c.measured := by
    funext p
    rw [Conditions.measured, Conditions.measured, h]
  -- neither the time nor the host is written
  have hsteps : (Script.streaming c'.timestamp c'.host).steps c.measured =
      (Script.streaming c.timestamp c.host).steps c.measured := by
    rw [Script.steps_streaming, Script.steps_streaming]
  have hscript : ∀ c : Conditions, runner.played out c =
      (Script.streaming c.timestamp c.host).play out c.measured ⟨.empty, []⟩ := fun _ => rfl
  rw [hscript, hscript, Script.play_eq, Script.play_eq, hmeasured, hsteps]
  refine ⟨rfl, ?_⟩
  generalize (Script.performAll c.measured out _ _).2 = result
  cases result <;> rfl

/-- Whatever surrounds it, a process does the same if its probes take as long. -/
theorem run_congr (h : c'.elapsed = c.elapsed) : { run args' e' out c' f' with files := f } = run args e out c f := by
  obtain ⟨hprogress, hresult⟩ := played_congr out h
  rcases hplayed : runner.played out c with ⟨s, failure | report⟩
  · rcases hplayed' : runner.played out c' with ⟨s', failure' | report'⟩
    · obtain ⟨error, rfl⟩ := Runner.exists_io_of_played hplayed
      rw [hplayed, hplayed'] at hprogress hresult
      cases hprogress
      cases hresult
      rw [run_of_error hplayed, run_of_error hplayed']
    · rw [hplayed, hplayed'] at hresult
      cases hresult
  · rcases hplayed' : runner.played out c' with ⟨s', failure' | report'⟩
    · rw [hplayed, hplayed'] at hresult
      cases hresult
    · rw [hplayed, hplayed'] at hprogress
      cases hprogress
      rw [run_of_ok hplayed, run_of_ok hplayed']

/-- A process ends with zero, or with one and a complaint of the error of standard output. -/
theorem run_cases (args : List String) (e : Environment) (out : Sink) (c : Conditions) (f : Files) :
    (∀ error, (runner.run out c f).result ≠ .error (.io error)) ∧
        run args e out c f = ⟨0, (runner.run out c f).delivery, [], "", f⟩ ∨
      ∃ error, (runner.run out c f).result = .error (.io error) ∧
        run args e out c f = ⟨1, (runner.run out c f).delivery, [], (Failure.io error).friendly ++ "\n", f⟩ := by
  have hio : ∀ error,
      (runner.run out c f).result = .error (.io error) ↔ (runner.played out c).2 = .error (.io error) :=
    fun _ => Runner.io_iff
  rw [Runner.run_delivery]
  rcases hplayed : runner.played out c with ⟨s, failure | report⟩
  · obtain ⟨error, rfl⟩ := Runner.exists_io_of_played hplayed
    rw [hplayed] at hio
    exact .inr ⟨error, (hio error).2 rfl, run_of_error hplayed⟩
  · rw [hplayed] at hio
    exact .inl ⟨fun error herror => (nomatch (hio error).1 herror), run_of_ok hplayed⟩

/-- **A process depends on standard output and on how long its probes take, and on nothing else.** It changes no file,
and writes the front of the text report. It ends with zero and says nothing exactly if all of the report was taken and
flushed; otherwise it ends with one and complains, on one line, of the error of standard output. With other arguments,
another environment, other files, on another host or at another time it does the same. -/
theorem run_isolated (args : List String) (e : Environment) (out : Sink) (c : Conditions) (f : Files) :
    let whole := Text.bytes (reportOf c).text
    let exit := run args e out c f
    let delivered := exit.output.bytes = whole ∧ exit.output.flushedAt.length = 9
    exit.files = f ∧ exit.output.bytes <+: whole ∧
      (exit.code = 0 ∧ exit.logged = [] ∧ exit.complaint = "" ↔ delivered) ∧
      (¬delivered → exit.code = 1 ∧ exit.logged = [] ∧ ∃ error,
        (error = out.error ∧ (∀ bs, out.call exit.output.bytes bs = []) ∨
          error = out.flushError ∧ out.flushes = some exit.output.flushedAt.length) ∧
        exit.complaint = (Failure.io error).friendly ++ "\n" ∧
        (error.OneLine → '\n' ∉ (Failure.io error).friendly.toList)) ∧
      (∀ errno, (IoError.os errno).OneLine) ∧ IoError.writeZero.OneLine ∧
      ∀ (args' : List String) (e' : Environment) (c' : Conditions) (f' : Files), c'.elapsed = c.elapsed →
        let exit' := run args' e' out c' f'
        exit'.output = exit.output ∧ exit'.logged = exit.logged ∧ exit'.complaint = exit.complaint ∧
          exit'.code = exit.code := by
  intro whole exit delivered
  obtain ⟨hdelivered, hcause⟩ := Runner.delivered_iff runner out c f
  have hend : exit.files = f ∧ (exit.code = 0 ∧ exit.logged = [] ∧ exit.complaint = "" ↔ delivered) ∧
      (¬delivered → exit.code = 1 ∧ exit.logged = [] ∧ ∃ error, (runner.run out c f).result = .error (.io error) ∧
        exit.complaint = (Failure.io error).friendly ++ "\n") := by
    rcases run_cases args e out c f with ⟨hok, hexit⟩ | ⟨error, herror, hexit⟩
    · have hall : delivered := hdelivered.1 hok
      rw [show exit = _ from hexit]
      exact ⟨rfl, iff_of_true ⟨rfl, rfl, rfl⟩ hall, fun hnot => absurd hall hnot⟩
    · have hnot : ¬delivered := fun hall => hdelivered.2 hall error herror
      have hone : (1 : UInt32) ≠ 0 := by decide
      rw [show exit = _ from hexit]
      exact ⟨rfl, iff_of_false (fun hzero => hone hzero.1) hnot,
        fun _ => ⟨rfl, rfl, error, herror, rfl⟩⟩
  obtain ⟨hfiles, hiff, hfailed⟩ := hend
  refine ⟨hfiles, Runner.delivery_isPrefix runner out c f, hiff, fun hnot => ?_, IoError.oneLine_os,
    IoError.oneLine_writeZero, fun args' e' c' f' h => ?_⟩
  · obtain ⟨hcode, hlogged, error, herror, hcomplaint⟩ := hfailed hnot
    exact ⟨hcode, hlogged, error, hcause error herror, hcomplaint, IoError.OneLine.friendly⟩
  · have hsame : { run args' e' out c' f' with files := f } = exit := run_congr h
    rw [← hsame]
    exact ⟨rfl, rfl, rfl, rfl⟩

/-- Nobody reads standard output. Arguments, and a corrupt history in its standard place, change nothing. -/
theorem run_isolated_closed :
    let c : Conditions := ⟨.epoch, ⟨"", "", 0⟩, fun _ => .zero, by decide⟩
    let c' : Conditions := ⟨⟨1, 0, by decide, by decide⟩, ⟨"linux", "x86_64", 8⟩, fun _ => .zero, by decide⟩
    let e : Environment := ⟨some "/home/a".toList, none, none⟩
    let e' : Environment := ⟨some "/".toList, some "/etc".toList, some "/var".toList⟩
    let f' := (Files.fresh ["var".toList, "probebench".toList]).set
      ["var".toList, "probebench".toList, "results.json".toList] (some (.file "not json".toUTF8))
    let out := Sink.failing (.os .brokenPipe)
    let exit := run [] e out c (Files.fresh [])
    exit.code = 1 ∧ exit.complaint = "Output stream closed before the report was written.\n" ∧
      (run ["--history", "x"] e' out c' f').complaint = exit.complaint := by
  intro c c' e e' f' out exit
  obtain ⟨-, -, -, hfailed, -, -, hsame⟩ := run_isolated [] e out c (Files.fresh [])
  obtain ⟨hcode, -, error, hcause, hcomplaint, -⟩ := hfailed fun hall =>
    Runner.not_delivered_of_isFull (r := runner) (f := Files.fresh []) (by nofun) rfl hall.1
  have herror : error = .os .brokenPipe := by
    rcases hcause with ⟨herror, -⟩ | ⟨herror, -⟩
    · exact herror
    · exact herror
  refine ⟨hcode, ?_, (hsame ["--history", "x"] e' c' f' rfl).2.2.1⟩
  rw [hcomplaint, herror]
  rfl

end CommandLine

end ProbeSuite
