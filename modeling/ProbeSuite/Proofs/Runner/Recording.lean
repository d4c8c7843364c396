import ProbeSuite.Proofs.History.Failing
import ProbeSuite.Proofs.Runner

/-!
# Recorded runs

* `Runner.foldl_withHistoryPath` : the last path that was set counts;
* `Runner.files_of_io`, `run_of_not_recording`, `run_of_recording` : a run fails in its output, or keeps no
  history, or adds its report to it;
* `Runner.runAll` : runs one after the other, `Runner.recorded` : the reports of those that succeeded;
* `Runner.HasRoom` : none of several runs fails because there is no room for its report;
* `Runner.holds_runAll` : what the history holds after runs, by what one run keeps;
* `Runner.run_recording` : the history holds exactly these;
* `Runner.history_not_kept` : the files for which that is not so.
-/

namespace ProbeSuite

namespace Runner

theorem foldl_withHistoryPath (r : Runner) (paths : List Path) :
    (paths.foldl withHistoryPath r).config = r.config ∧
      (paths.foldl withHistoryPath r).history =
        match paths.getLast? with
        | some p => some (.make p r.config.historyLimit)
        | none => r.history := by
  induction paths using List.reverseRecOn with
  | nil => exact ⟨rfl, rfl⟩
  | append_singleton paths p ih =>
    rw [List.foldl_concat, List.getLast?_concat]
    refine ⟨ih.1, ?_⟩
    show some (History.make p _) = some (History.make p _)
    rw [ih.1]

theorem make_ok {config : Config} {e : Environment} {r₀ : Runner} (hmake : make config e = .ok r₀) :
    r₀.config = config ∧ (config.recordHistory = true →
      ∃ p, e.historyFile = .ok p ∧ r₀.history = some (.make p config.historyLimit)) := by
  unfold make at hmake
  split at hmake
  · cases hmake
  · split at hmake
    · split at hmake
      · cases hmake
      · next p hp =>
        cases hmake
        exact ⟨rfl, fun _ => ⟨p, hp, rfl⟩⟩
    · next hrecord =>
      cases hmake
      exact ⟨rfl, fun h => absurd h hrecord⟩

/-- The history of a runner that keeps one is at the last path that was set, or at the standard one. -/
theorem history_of_make {config : Config} {e : Environment} {r₀ : Runner} (hmake : make config e = .ok r₀)
    (hrecord : config.recordHistory = true) (paths : List Path) :
    ∃ p, (paths.getLast? = some p ∨ paths = [] ∧ e.historyFile = .ok p) ∧
      (paths.foldl withHistoryPath r₀).history = some (.make p config.historyLimit) := by
  obtain ⟨hconfig, hhistory⟩ := make_ok hmake
  rw [(foldl_withHistoryPath r₀ paths).2, hconfig]
  cases hlast : paths.getLast? with
  | none =>
    obtain ⟨p, hp, hstandard⟩ := hhistory hrecord
    exact ⟨p, .inr ⟨List.getLast?_eq_none_iff.1 hlast, hp⟩, hstandard⟩
  | some p => exact ⟨p, .inl rfl, rfl⟩

/-! ## One run -/

variable {r : Runner} {sink : Sink} {c : Conditions} {f : Files}

theorem report_of_played {s : Script.Progress} {report : Report} (h : r.played sink c = (s, .ok report)) :
    report = reportOf c := by
  unfold played at h
  rw [Script.play_eq, Prod.mk.injEq] at h
  obtain ⟨-, hresult⟩ := h
  rw [← outcome_script r c]
  generalize (Script.performAll c.measured sink ((r.script c.timestamp c.host).steps c.measured) ⟨.empty, []⟩).2 =
    result at hresult
  cases result with
  | error e => cases hresult
  | ok _ => exact (Except.ok.inj hresult).symm

theorem files_of_io {e : IoError} (h : (r.run sink c f).result = .error (.io e)) : (r.run sink c f).files = f := by
  rcases hplayed : r.played sink c with ⟨s, failure | report⟩
  · rw [run_of_error hplayed]
  · have hnone := io_iff.1 h
    rw [hplayed] at hnone
    cases hnone

theorem run_of_not_recording (hrecord : r.config.recordHistory = false) :
    (r.run sink c f).files = f ∧
      ((∀ e, (r.run sink c f).result ≠ .error (.io e)) → (r.run sink c f).result = .ok (reportOf c)) := by
  rcases hplayed : r.played sink c with ⟨s, failure | report⟩
  · obtain ⟨e, rfl⟩ := exists_io_of_played hplayed
    exact ⟨by rw [run_of_error hplayed], fun hnone => absurd (io_iff.2 (by rw [hplayed])) (hnone e)⟩
  · cases report_of_played hplayed
    have hskipped : r.record f (reportOf c) = (f, [], .ok ()) := by
      unfold record
      cases r.history with
      | none => rfl
      | some h => simp [hrecord]
    rw [run_of_ok hplayed, hskipped]
    exact ⟨rfl, fun _ => rfl⟩

theorem run_of_recording {h : History} (hrecord : r.config.recordHistory = true) (hhistory : r.history = some h)
    (hdelivered : ∀ e, (r.run sink c f).result ≠ .error (.io e)) :
    (r.run sink c f).files = (h.append f (reportOf c)).1 ∧
      (r.run sink c f).result =
        match (h.append f (reportOf c)).2.2 with
        | .ok () => .ok (reportOf c)
        | .error fault => .error (.history fault) := by
  rcases hplayed : r.played sink c with ⟨s, failure | report⟩
  · obtain ⟨e, rfl⟩ := exists_io_of_played hplayed
    exact absurd (io_iff.2 (by rw [hplayed])) (hdelivered e)
  · cases report_of_played hplayed
    have hadded : r.record f (reportOf c) = h.append f (reportOf c) := by
      unfold record
      rw [hhistory]
      exact if_pos hrecord
    rw [run_of_ok hplayed, hadded]
    exact ⟨rfl, rfl⟩

theorem result_cases : (∃ report, (r.run sink c f).result = .ok report) ∨
    (∃ e, (r.run sink c f).result = .error (.io e)) ∨ ∃ fault, (r.run sink c f).result = .error (.history fault) := by
  rcases hplayed : r.played sink c with ⟨s, failure | report⟩
  · obtain ⟨e, rfl⟩ := exists_io_of_played hplayed
    rw [run_of_error hplayed]
    exact .inr (.inl ⟨e, rfl⟩)
  · rw [run_of_ok hplayed]
    dsimp only
    split
    · exact .inl ⟨report, rfl⟩
    · next fault _ => exact .inr (.inr ⟨fault, rfl⟩)

theorem result_ne_config (fault : ConfigFault) : (r.run sink c f).result ≠ .error (.config fault) := by
  intro hfault
  rcases result_cases (r := r) with ⟨report, hok⟩ | ⟨e, he⟩ | ⟨fault', hfault'⟩
  · cases hok.symm.trans hfault
  · cases he.symm.trans hfault
  · cases hfault'.symm.trans hfault

theorem result_ne_output (text : String) : (r.run sink c f).result ≠ .error (.output text) := by
  intro htext
  rcases result_cases (r := r) with ⟨report, hok⟩ | ⟨e, he⟩ | ⟨fault, hfault⟩
  · cases hok.symm.trans htext
  · cases he.symm.trans htext
  · cases hfault.symm.trans htext

/-- The sink took the whole report of a run and was flushed each time. -/
def Delivered (r : Runner) (c : Conditions) (d : Delivery) : Prop :=
  d.bytes = r.whole c ∧ d.flushedAt.length = r.flushes

/-! ## Many runs -/

/-- Runs one after the other, each on the files that the one before left. -/
def runAll (r : Runner) : List (Sink × Conditions) → Files → Files × List Outcome
  | [], f => (f, [])
  | (sink, c) :: runs, f =>
    let out := r.run sink c f
    let (last, outs) := runAll r runs out.files
    (last, out :: outs)

/-- No run fails because there is no room for its report. -/
def HasRoom (r : Runner) (h : History) : List (Sink × Conditions) → Files → Prop
  | [], _ => True
  | (sink, c) :: runs, f =>
    (∀ fault, (r.run sink c f).result = .error (.history fault) → ¬h.OutOfRoom f (reportOf c)) ∧
      HasRoom r h runs (r.run sink c f).files

/-- The reports in a history after runs: those of the runs that succeeded are added, in order. -/
def recorded (limit : UInt64) (reports : List Report) (outs : List Outcome) : List Report :=
  outs.foldl (fun reports out =>
    match out.result with
    | .ok report => History.Operation.next limit reports (.append report)
    | .error _ => reports) reports

theorem recorded_of_ok {report : Report} (h : (r.run sink c f).result = .ok report) {limit : UInt64}
    {reports : List Report} {runs : List (Sink × Conditions)} :
    recorded limit reports (r.runAll ((sink, c) :: runs) f).2 =
      recorded limit (History.Operation.next limit reports (.append report))
        (r.runAll runs (r.run sink c f).files).2 := by
  simp only [recorded, runAll, List.foldl_cons, h]

theorem recorded_of_error {failure : Failure} (h : (r.run sink c f).result = .error failure) {limit : UInt64}
    {reports : List Report} {runs : List (Sink × Conditions)} :
    recorded limit reports (r.runAll ((sink, c) :: runs) f).2 =
      recorded limit reports (r.runAll runs (r.run sink c f).files).2 := by
  simp only [recorded, runAll, List.foldl_cons, h]

theorem holds_run_of_ok {p : Path} {limit : UInt64} (hrecord : r.config.recordHistory = true)
    (hhistory : r.history = some (.make p limit)) {report : Report} (hok : (r.run sink c f).result = .ok report)
    {reports : List Report} (hholds : History.Holds p f reports) :
    History.Holds p (r.run sink c f).files (History.Operation.next limit reports (.append report)) ∧
      History.Settled p (r.run sink c f).files := by
  obtain ⟨hfiles, hresult⟩ := run_of_recording hrecord hhistory fun e he => nomatch hok.symm.trans he
  rw [hok] at hresult
  rcases happend : ((History.make p limit).append f (reportOf c)).2.2 with fault | _
  · rw [happend] at hresult
    cases hresult
  · rw [happend] at hresult
    cases hresult
    rw [hfiles]
    exact hholds.next happend

theorem holds_run_of_error {p : Path} {limit : UInt64} (hrecord : r.config.recordHistory = true)
    (hhistory : r.history = some (.make p limit)) {failure : Failure}
    (herror : (r.run sink c f).result = .error failure) {reports : List Report}
    (hholds : History.Holds p f reports) (hsettled : History.Settled p f)
    (hroom : ∀ fault, (r.run sink c f).result = .error (.history fault) →
      ¬(History.make p limit).OutOfRoom f (reportOf c)) :
    History.Holds p (r.run sink c f).files reports ∧ History.Settled p (r.run sink c f).files := by
  by_cases hio : ∃ e, (r.run sink c f).result = .error (.io e)
  · obtain ⟨e, he⟩ := hio
    rw [files_of_io he]
    exact ⟨hholds, hsettled⟩
  · obtain ⟨hfiles, hresult⟩ := run_of_recording hrecord hhistory fun e he => hio ⟨e, he⟩
    rcases happend : ((History.make p limit).append f (reportOf c)).2.2 with fault | _
    · rw [happend] at hresult
      rw [hfiles]
      have hpath := History.make_path p limit
      have hkept := History.Holds.append_error (h := .make p limit) (hpath.symm ▸ hholds)
        (hpath.symm ▸ hsettled) happend (hroom fault hresult)
      rwa [hpath] at hkept
    · rw [happend, herror] at hresult
      cases hresult

/-- Each run adds its report to the history if it succeeds, and leaves the history as it is if not. -/
theorem holds_runAll {p : Path} {limit : UInt64} (hrecord : r.config.recordHistory = true)
    (hhistory : r.history = some (.make p limit)) (runs : List (Sink × Conditions)) {reports : List Report}
    (hholds : History.Holds p f reports) (hsettled : History.Settled p f)
    (hroom : r.HasRoom (.make p limit) runs f) :
    History.Holds p (r.runAll runs f).1 (recorded limit reports (r.runAll runs f).2) := by
  induction runs generalizing f reports with
  | nil => exact hholds
  | cons run runs ih =>
    obtain ⟨sink, c⟩ := run
    obtain ⟨hfirst, hroom⟩ := hroom
    cases hresult : (r.run sink c f).result with
    | ok report =>
      obtain ⟨hnext, hsettled'⟩ := holds_run_of_ok hrecord hhistory hresult hholds
      rw [recorded_of_ok hresult]
      exact ih hnext hsettled' hroom
    | error failure =>
      obtain ⟨hkept, hsettled'⟩ := holds_run_of_error hrecord hhistory hresult hholds hsettled hfirst
      rw [recorded_of_error hresult]
      exact ih hkept hsettled' hroom

/-- **The history holds the reports of the runs that succeeded.** A run whose sink fails returns the error of
the sink and changes no file. One whose report was delivered adds it to the history, if there is one, and
returns it if that succeeds; if not, it returns a fault of the history and leaves every file as it was, unless there was
no room in the file that was opened. It may have made directories, so over many runs a missing history is one that they
could not lead to. -/
theorem run_recording {config : Config} {e : Environment} {r₀ : Runner} (hmake : make config e = .ok r₀)
    (paths : List Path) :
    let r := paths.foldl withHistoryPath r₀
    (∀ (sink : Sink) (c : Conditions) (f : Files),
      let out := r.run sink c f
      (¬r.Delivered c out.delivery → out.files = f ∧
        (out.result = .error (.io sink.error) ∧ (∀ bs, sink.call out.delivery.bytes bs = []) ∨
          out.result = .error (.io sink.flushError) ∧ sink.flushes = some out.delivery.flushedAt.length)) ∧
      (config.recordHistory = false → out.files = f ∧ (r.Delivered c out.delivery → out.result = .ok (reportOf c))) ∧
      (∀ fault, out.result ≠ .error (.config fault)) ∧ ∀ text, out.result ≠ .error (.output text)) ∧
    (config.recordHistory = true → ∃ p, (paths.getLast? = some p ∨ paths = [] ∧ e.historyFile = .ok p) ∧
      let h := History.make p config.historyLimit
      (∀ (sink : Sink) (c : Conditions) (f : Files),
        let out := r.run sink c f
        let added := h.append f (reportOf c)
        (r.Delivered c out.delivery → out.files = added.1 ∧
          (added.2.2 = .ok () ∧ out.result = .ok (reportOf c) ∨
            ∃ fault, added.2.2 = .error fault ∧ out.result = .error (.history fault) ∧
              ((∀ place content,
                  out.files.entry place = some (.file content) ↔ f.entry place = some (.file content)) ∨
                h.OutOfRoom f (reportOf c)))) ∧
        ∀ report reports, out.result = .ok report → History.Holds p f reports →
          History.Holds p out.files (History.Operation.next config.historyLimit reports (.append report))) ∧
      ∀ (runs : List (Sink × Conditions)) (f : Files) (reports : List Report),
        History.Holds p f reports → History.Settled p f → r.HasRoom h runs f →
          History.Holds p (r.runAll runs f).1 (recorded config.historyLimit reports (r.runAll runs f).2)) := by
  intro r
  have hconfig : r.config = config := by
    rw [(foldl_withHistoryPath r₀ paths).1, (make_ok hmake).1]
  refine ⟨fun sink c f => ?_, fun hrecord => ?_⟩
  · intro out
    obtain ⟨hdelivered, hcause⟩ := delivered_iff r sink c f
    refine ⟨fun hfailed => ?_, fun hrecord => ?_, result_ne_config, result_ne_output⟩
    · have hio : ∃ e, out.result = .error (.io e) := by
        by_contra hnone
        exact hfailed (hdelivered.1 fun e he => hnone ⟨e, he⟩)
      obtain ⟨e, he⟩ := hio
      refine ⟨files_of_io he, ?_⟩
      rcases hcause e he with ⟨rfl, hfull⟩ | ⟨rfl, hlimit⟩
      · exact .inl ⟨he, hfull⟩
      · exact .inr ⟨he, hlimit⟩
    · obtain ⟨hfiles, hresult⟩ := run_of_not_recording (hconfig ▸ hrecord)
      exact ⟨hfiles, fun hall => hresult (hdelivered.2 hall)⟩
  · obtain ⟨p, hp, hhistory⟩ := history_of_make hmake hrecord paths
    rw [← hconfig] at hrecord
    refine ⟨p, hp, fun sink c f => ⟨fun hall => ?_, fun report reports hok hholds => ?_⟩,
      fun runs f reports hholds hsettled hroom => holds_runAll hrecord hhistory runs hholds hsettled hroom⟩
    · obtain ⟨hfiles, hresult⟩ := run_of_recording hrecord hhistory ((delivered_iff r sink c f).1.2 hall)
      refine ⟨hfiles, ?_⟩
      rcases happend : ((History.make p config.historyLimit).append f (reportOf c)).2.2 with fault | _
      · rw [happend] at hresult
        refine .inr ⟨fault, rfl, hresult, ?_⟩
        rw [hfiles]
        by_cases hroom : (History.make p config.historyLimit).OutOfRoom f (reportOf c)
        · exact .inr hroom
        · exact .inl (History.append_error_grows happend hroom).file_iff
      · rw [happend] at hresult
        exact .inl ⟨rfl, hresult⟩
    · exact (holds_run_of_ok hrecord hhistory hok hholds).1

/-- A run whose sink takes nothing makes no file. After one that is delivered, the history has its report. -/
theorem run_recording_two_runs :
    let e : Environment := ⟨none, none, some "/data".toList⟩
    let c : Conditions := ⟨⟨0, 0, by decide, by decide⟩, ⟨"", "", 0⟩, fun _ => .zero, by decide⟩
    let p := "h.json".toList
    let failing := Sink.failing (.bare .other)
    ∃ r₀, make ⟨.json, true, 5⟩ e = .ok r₀ ∧
      ((r₀.withHistoryPath p).run failing c (Files.fresh [])).files = Files.fresh [] ∧
      ((r₀.withHistoryPath p).run failing c (Files.fresh [])).result = .error (.io (.bare .other)) ∧
      History.Holds p ((r₀.withHistoryPath p).runAll [(.unlimited, c), (failing, c)] (Files.fresh [])).1
        [(reportOf c).wrapped] := by
  intro e c p failing
  have hmake : ∃ r₀, make ⟨.json, true, 5⟩ e = .ok r₀ := ⟨_, rfl⟩
  obtain ⟨r₀, hmake⟩ := hmake
  refine ⟨r₀, hmake, ?_⟩
  obtain ⟨hrun, hruns⟩ := run_recording hmake [p]
  obtain ⟨p', hp, hrecords, hruns⟩ := hruns rfl
  have hlast : p' = p := by
    rcases hp with hlast | ⟨hnone, -⟩
    · exact (Option.some.inj hlast).symm
    · cases hnone
  subst hlast
  generalize hr : [p].foldl withHistoryPath r₀ = r at hrun hrecords hruns
  have hfailing : ∀ f, (r.run failing c f).files = f ∧ (r.run failing c f).result = .error (.io (.bare .other)) := by
    intro f
    obtain ⟨hfiles, hresult⟩ := (hrun failing c f).1
      fun hdelivered => not_delivered_of_isFull (by nofun) rfl hdelivered.1
    rcases hresult with ⟨hresult, -⟩ | ⟨hresult, -⟩
    · exact ⟨hfiles, hresult⟩
    · exact ⟨hfiles, hresult⟩
  have hmissing : History.Holds p (Files.fresh []) [] := .inl ⟨by decide +kernel, rfl⟩
  have hadded : ((History.make p 5).append (Files.fresh []) (reportOf c)).2.2 = .ok () := by
    have hload : (History.make p 5).load (Files.fresh []) = .ok [] :=
      History.Holds.load (h := .make p 5) hmissing fun hhas => absurd hhas (by decide +kernel)
    obtain ⟨-, hparent, hwrite⟩ := History.unhindered_append (h := .make p 5) (f := Files.fresh [])
      (fun hhas => absurd hhas (by decide +kernel)) (by decide +kernel) (by decide +kernel) (fun _ => rfl) (reportOf c)
    obtain ⟨g, hg⟩ := hwrite [] hload
    exact (History.append_ok_iff.2 ⟨[], hload, hparent, hg⟩).1
  have hdelivered : (r.run .unlimited c (Files.fresh [])).result = .ok (reportOf c) := by
    have hall := (delivered_iff r .unlimited c (Files.fresh [])).1.1 (not_io_unlimited r c _)
    obtain ⟨-, ⟨-, hok⟩ | ⟨fault, hfault, -⟩⟩ := (hrecords .unlimited c (Files.fresh [])).1 hall
    · exact hok
    · cases hadded.symm.trans hfault
  have hroom : r.HasRoom (.make p 5) [(.unlimited, c), (failing, c)] (Files.fresh []) := by
    refine ⟨fun fault hfault => ?_, fun fault hfault => ?_, trivial⟩
    · cases hdelivered.symm.trans hfault
    · cases (hfailing _).2.symm.trans hfault
  have hholds := hruns [(.unlimited, c), (failing, c)] (Files.fresh []) [] hmissing
    (.inr ⟨by unfold Path.IsDirect; decide +kernel, Files.isTree_fresh []⟩) hroom
  have hrecorded : recorded 5 [] (r.runAll [(.unlimited, c), (failing, c)] (Files.fresh [])).2 =
      [(reportOf c).wrapped] := by
    have hnext : ∀ report : Report, History.Operation.next 5 [] (.append report) = [report.wrapped] := fun _ => rfl
    rw [recorded_of_ok hdelivered, recorded_of_error (hfailing _).2, ← hnext]
    rfl
  subst hr
  refine ⟨(hfailing _).1, (hfailing _).2, ?_⟩
  rw [← hrecorded]
  exact hholds

theorem run_of_append_error (config : Config) (hrecord : config.recordHistory = true) (h : History)
    {fault : HistoryFault} (herror : (h.append f (reportOf c)).2.2 = .error fault) :
    (run ⟨config, some h⟩ .unlimited c f).files = (h.append f (reportOf c)).1 ∧
      (run ⟨config, some h⟩ .unlimited c f).result = .error (.history fault) := by
  obtain ⟨hfiles, hresult⟩ := run_of_recording (r := ⟨config, some h⟩) hrecord rfl (not_io_unlimited _ c f)
  rw [herror] at hresult
  exact ⟨hfiles, hresult⟩

/-- A failed run may take a history away. In a file without room nothing is left of the reports; and a path back out of
a directory that is missing led nowhere before the run, and leads to a directory after it. -/
theorem history_not_kept :
    let c : Conditions := ⟨⟨0, 0, by decide, by decide⟩, ⟨"", "", 0⟩, fun _ => .zero, by decide⟩
    let config : Config := ⟨.json, true, 5⟩
    let p := "h.json".toList
    let text := "\x7b\"version\":1,\"results\":[]\x7d"
    let full : Files := { Files.fresh [] with room := fun _ => some (0, .noSpace) }.set [p] (some (.file text.toUTF8))
    let q := "new/../d".toList
    let f : Files := (Files.fresh []).set ["d".toList] (some .directory)
    ((History.make p 5).load full = .ok [] ∧
      (run ⟨config, some (.make p 5)⟩ .unlimited c full).result = .error (.history (.unwritable p (.os .noSpace))) ∧
      ∃ fault, (History.make p 5).load (run ⟨config, some (.make p 5)⟩ .unlimited c full).files = .error fault) ∧
    (History.make q 5).load f = .ok [] ∧
      (run ⟨config, some (.make q 5)⟩ .unlimited c f).result = .error (.history (.unwritable q (.os .isDirectory))) ∧
      (History.make q 5).load (run ⟨config, some (.make q 5)⟩ .unlimited c f).files =
        .error (.unreadable q (.os .isDirectory)) := by
  intro c config p text full q f
  clear_value c
  constructor
  · have hload : (History.make p 5).load full = .ok [] := by decide +kernel
    have hopens : full.opens p = .ok [p] := rfl
    have hroom : full.room [p] = some (0, .noSpace) := rfl
    obtain ⟨hleft, herror⟩ := History.append_of_no_room (h := .make p 5) (reportOf c) hload rfl hopens hroom
    obtain ⟨hfiles, hresult⟩ := run_of_append_error config rfl (.make p 5) herror
    refine ⟨hload, hresult, ?_⟩
    rw [hfiles, hleft]
    exact ⟨.malformed p ⟨.eofValue, ⟨1, 0⟩⟩, by decide +kernel⟩
  · have hload : (History.make q 5).load f = .ok [] := by decide +kernel
    have hopens : (f.makeParent q).1.opens q = .error (.os .isDirectory) := by decide +kernel
    obtain ⟨hleft, herror⟩ := History.append_of_not_opened (h := .make q 5) (reportOf c) hload rfl hopens
    obtain ⟨hfiles, hresult⟩ := run_of_append_error config rfl (.make q 5) herror
    refine ⟨hload, hresult, ?_⟩
    rw [hfiles, hleft]
    decide +kernel

end Runner

end ProbeSuite
