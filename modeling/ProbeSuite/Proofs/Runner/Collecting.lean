import ProbeSuite.Proofs.History
import ProbeSuite.Proofs.Runner.Recording

/-!
# Collected reports

* `Runner.print_of_pieces` : in whatever pieces a report is printed, the sink takes the same;
* `Runner.run_of_print_error` : a report that cannot be printed fails the run with the error of the sink;
* `Runner.run_collecting` : what a run that writes its report at once leaves in the sink, wherever the sink fails,
  and how that agrees with a run that streams it.
-/

namespace ProbeSuite

theorem Delivery.text?_of_bytes {d : Delivery} {text : String} (h : d.bytes = Text.bytes text) :
    d.text? = some text := by
  have harray : (⟨d.bytes.toArray⟩ : ByteArray) = text.toUTF8 := by
    rw [h, Text.bytes, Text.toList_eq]
  rw [text?, harray]
  exact toUTF8_fromUTF8? text

theorem Delivery.eq_mk {d : Delivery} {bytes : List UInt8} {lines : List Nat} (hbytes : d.bytes = bytes)
    (hflushed : d.flushedAt = lines) : d = ⟨bytes, lines⟩ := by
  cases d
  cases hbytes
  cases hflushed
  rfl

/-- The text of a report and a line end is read as the report. -/
theorem Report.decode_line {r : Report} (h : r.FitsWords) : decode (r.pretty ++ "\n") = .ok r := by
  have hlaidOut := r.laidOut_encode .pretty
  rw [wrapped_eq_self_iff.2 h] at hlaidOut
  have htext : (r.pretty ++ "\n").toList = (r.encode .pretty).toList ++ Json.Value.newline 0 := by
    rw [String.toList_append]
    rfl
  rw [← List.nil_append ((r.encode .pretty).toList ++ _)] at htext
  exact recognizes.decode_iff.2 ⟨_, _, _, Json.Blank.nil, hlaidOut, Json.blank_newline 0, htext⟩

/-- A sink stopped a run: the run returned the error of the way in which the sink failed. -/
def Outcome.StoppedBy (out : Outcome) (sink : Sink) (stop : Sink.Stop) : Prop :=
  sink.StopsAt out.delivery stop ∧ out.result = .error (.io (sink.stopError stop))

namespace Runner

open Script (Reaches eventsOf wholeOf)

variable {r : Runner} {sink : Sink} {c : Conditions} {f : Files}

theorem script_of_json (hjson : r.config.output = .json) :
    r.script c.timestamp c.host = .collecting c.timestamp c.host := by
  unfold script
  rw [hjson]

/-- In either output, a run that fails in its sink returns the error of the way in which the sink failed. -/
theorem stoppedBy_of_io (hchunk : sink.chunk ≠ some 0) {e : IoError} (h : (r.run sink c f).result = .error (.io e)) :
    ∃ stop, (r.run sink c f).StoppedBy sink stop := by
  rcases (delivered_of_chunk r sink hchunk c f).2 e h with ⟨rfl, hfull⟩ | ⟨rfl, hlimit⟩
  · exact ⟨.full, hfull, h⟩
  · exact ⟨.unflushed, hlimit, h⟩

/-- How a collecting run leaves the sink. -/
theorem delivery_of_json (hjson : r.config.output = .json) (hchunk : sink.chunk ≠ some 0) :
    let out := r.run sink c f
    let whole := wholeOf (reportOf c)
    out.delivery.bytes = sink.accept [] whole ∧
      (out.delivery.bytes ≠ whole ∧ out.delivery.flushedAt = [] ∧ out.result = .error (.io sink.error) ∨
        out.delivery = ⟨whole, []⟩ ∧ sink.flushes = some 0 ∧ out.result = .error (.io sink.flushError) ∨
        out.delivery = ⟨whole, [Sink.lines whole]⟩ ∧ ∀ e, out.result ≠ .error (.io e)) := by
  intro out whole
  obtain ⟨s, result, hends, hdelivery, -, hio⟩ := run_ends r hchunk c f
  rw [script_of_json hjson] at hends
  obtain ⟨-, hbytes, hcases⟩ := Script.ends_collecting hends
  rw [show out.delivery = s.delivery from hdelivery]
  refine ⟨hbytes, ?_⟩
  rcases hcases with ⟨hne, hflushed, rfl⟩ | ⟨hwhole, hlimit, rfl⟩ | ⟨hwhole, rfl⟩
  · exact .inl ⟨hne, hflushed, (hio _).2 rfl⟩
  · exact .inr (.inl ⟨hwhole, hlimit, (hio _).2 rfl⟩)
  · exact .inr (.inr ⟨hwhole, fun e he => nomatch (hio e).1 he⟩)

theorem print_of_pieces {report : Report} {pieces : List (List Char)}
    (hpieces : String.ofList pieces.flatten = report.pretty) (d : Delivery) :
    Json.printPieces sink pieces d = Json.print sink report.stored d := by
  rw [Json.printPieces_eq, Json.print_eq, hpieces]
  rfl

/-- A report that cannot be printed is left where the sink failed. The error went through that of the printer, and is
the one of the sink again. -/
theorem run_of_print_error (hjson : r.config.output = .json) (hchunk : sink.chunk ≠ some 0) {e : Json.Error}
    (h : (Json.print sink (reportOf c).stored .empty).2 = .error e) :
    e = .io sink.error ∧ Failure.ofPrint e = .io sink.error ∧
      (r.run sink c f).delivery = (Json.print sink (reportOf c).stored .empty).1 ∧
      (r.run sink c f).result = .error (Failure.ofPrint e) := by
  obtain ⟨rfl, hstopped⟩ := Json.print_error hchunk h
  obtain ⟨hbytes, hcases⟩ := delivery_of_json (f := f) (c := c) hjson hchunk
  have hfront : sink.accept [] (wholeOf (reportOf c)) = sink.accept [] (Text.bytes (reportOf c).pretty) := by
    rw [wholeOf, Text.bytes_append]
    exact Sink.accept_append_of_ne hstopped _
  rw [hfront] at hbytes
  have hne : (r.run sink c f).delivery.bytes ≠ wholeOf (reportOf c) := by
    have hend : Text.bytes "\n" = [10] := by rw [Text.bytes_eq_flatMap]; rfl
    have hshort := (Sink.accept_isPrefix (s := sink) [] (Text.bytes (reportOf c).pretty)).length_le
    intro hwhole
    rw [← hbytes, hwhole, wholeOf, Text.bytes_append, hend, List.length_append] at hshort
    exact absurd hshort (Nat.not_succ_le_self _)
  refine ⟨rfl, rfl, ?_⟩
  rw [Json.delivery_print hchunk]
  rcases hcases with ⟨-, hflushed, hresult⟩ | ⟨hwhole, -⟩ | ⟨hwhole, -⟩
  · exact ⟨Delivery.eq_mk hbytes hflushed, hresult⟩
  · exact absurd (congrArg Delivery.bytes hwhole) hne
  · exact absurd (congrArg Delivery.bytes hwhole) hne

/-- The events of a collecting run start with those of all probes. -/
theorem events_of_json (hjson : r.config.output = .json) (hchunk : sink.chunk ≠ some 0) :
    eventsOf c.measured Probe.all <+: (r.run sink c f).events := by
  obtain ⟨result, hends, -⟩ := Script.play_ends c.measured hchunk (r.script c.timestamp c.host)
  rw [script_of_json hjson] at hends
  have hevents : (r.played sink c).1.events = eventsOf c.measured Probe.all := by
    unfold played
    rw [script_of_json hjson]
    exact (Script.ends_collecting hends).1
  rcases hplayed : r.played sink c with ⟨s, e | report⟩
  · simp only [run_of_error hplayed, ← hevents, hplayed, List.prefix_rfl]
  · simp only [run_of_ok hplayed, ← hevents, hplayed, List.prefix_append]

theorem values_of_ok {report : Report} (h : (r.run sink c f).result = .ok report) :
    report = reportOf c ∧
      report.measurements.map (fun m => (m.probe, m.value)) = Probe.all.map fun p => (p, p.value) := by
  have hreport : report = reportOf c := by
    rcases hplayed : r.played sink c with ⟨s, e | report'⟩
    · rw [run_of_error hplayed] at h
      cases h
    · cases report_of_played hplayed
      rw [run_of_ok hplayed] at h
      dsimp only at h
      split at h
      · cases h
        rfl
      · cases h
  refine ⟨hreport, ?_⟩
  rw [hreport]
  exact List.map_map

/-- A sink that stopped a collecting run before its end was full. -/
theorem stoppedBy_full_of_json (hjson : r.config.output = .json) (hchunk : sink.chunk ≠ some 0)
    (hne : (r.run sink c f).delivery.bytes ≠ wholeOf (reportOf c)) : (r.run sink c f).StoppedBy sink .full := by
  obtain ⟨hbytes, hcases⟩ := delivery_of_json (f := f) (c := c) hjson hchunk
  have hlongest := sink.longest_accept (wholeOf (reportOf c))
  rw [← hbytes] at hlongest
  rcases hcases with ⟨-, -, hresult⟩ | ⟨hwhole, -⟩ | ⟨hwhole, -⟩
  · exact ⟨hlongest.full hne, hresult⟩
  · exact absurd (congrArg Delivery.bytes hwhole) hne
  · exact absurd (congrArg Delivery.bytes hwhole) hne

/-- A sink that took the whole report and was not flushed failed at that flush. -/
theorem stoppedBy_unflushed_of_json (hjson : r.config.output = .json) (hchunk : sink.chunk ≠ some 0)
    (hwhole : (r.run sink c f).delivery = ⟨wholeOf (reportOf c), []⟩) : (r.run sink c f).StoppedBy sink .unflushed := by
  rcases (delivery_of_json (f := f) (c := c) hjson hchunk).2 with ⟨hne, -⟩ | ⟨-, hlimit, hresult⟩ | ⟨hflushed, -⟩
  · exact absurd (congrArg Delivery.bytes hwhole) hne
  · refine ⟨?_, hresult⟩
    show sink.flushes = some (r.run sink c f).delivery.flushedAt.length
    rw [hwhole]
    exact hlimit
  · cases hwhole.symm.trans hflushed

/-- After the flush only the history can fail. -/
theorem result_of_json (hjson : r.config.output = .json) (hchunk : sink.chunk ≠ some 0)
    (hwhole : (r.run sink c f).delivery = ⟨wholeOf (reportOf c), [Sink.lines (wholeOf (reportOf c))]⟩) :
    (r.run sink c f).result = .ok (reportOf c) ∨
      r.config.recordHistory = true ∧ ∃ fault, (r.run sink c f).result = .error (.history fault) := by
  have hdelivered : ∀ e, (r.run sink c f).result ≠ .error (.io e) := by
    rcases (delivery_of_json (f := f) (c := c) hjson hchunk).2 with ⟨hne, -⟩ | ⟨hunflushed, -⟩ | ⟨-, hnone⟩
    · exact absurd (congrArg Delivery.bytes hwhole) hne
    · cases hwhole.symm.trans hunflushed
    · exact hnone
  rcases hrecord : r.config.recordHistory with _ | _
  · exact .inl ((run_of_not_recording hrecord).2 hdelivered)
  · have hresult : (∃ returned, (r.run sink c f).result = .ok returned) ∨
        (∃ e, (r.run sink c f).result = .error (.io e)) ∨
          ∃ fault, (r.run sink c f).result = .error (.history fault) := result_cases
    rcases hresult with ⟨returned, hok⟩ | ⟨e, he⟩ | hfault
    · rw [(values_of_ok hok).1] at hok
      exact .inl hok
    · exact absurd he (hdelivered e)
    · exact .inr ⟨rfl, hfault⟩

theorem fitsWords_reportOf (hwords : ∀ p, (c.elapsed p).nanos < 2 ^ 64) : (reportOf c).FitsWords := by
  intro m hm
  obtain ⟨p, -, rfl⟩ := List.mem_map.1 hm
  exact hwords p

/-- **The discipline of a collected report.** All probes run, in order, before the sink is offered anything. Then it
is left with the longest part of the report that it takes, in whatever pieces that is printed, and is flushed once
if it took everything. The error of any of the pieces goes through that of the printer and comes out as the one of the
sink, which a streaming run returns too when the sink fails in the same way. What a sink took as a whole is read as the
report of the run, which has the values of every streaming run. -/
theorem run_collecting (r : Runner) (hjson : r.config.output = .json) (sink : Sink) (hchunk : sink.chunk ≠ some 0)
    (c : Conditions) (f : Files) :
    let report := reportOf c
    let whole := Text.bytes (report.pretty ++ "\n")
    let out := r.run sink c f
    let start : Script Report × Script.Progress := (r.script c.timestamp c.host, ⟨.empty, []⟩)
    (eventsOf c.measured Probe.all <+: out.events ∧
      (∀ p next s, Reaches c.measured sink start (.measure p next, s) →
        ∃ before after, Probe.all = before ++ p :: after ∧ s = ⟨.empty, eventsOf c.measured before⟩) ∧
      (∀ v next s, Reaches c.measured sink start (.print v next, s) → s.events = eventsOf c.measured Probe.all) ∧
      ∀ text next s, Reaches c.measured sink start (.write text next, s) →
        s.events = eventsOf c.measured Probe.all) ∧
    (sink.Longest whole out.delivery.bytes ∧
      (∀ pieces, String.ofList pieces.flatten = report.pretty ++ "\n" →
        (Json.printPieces sink pieces .empty).1.bytes = out.delivery.bytes) ∧
      (∀ pieces, String.ofList pieces.flatten = report.pretty →
        Json.printPieces sink pieces .empty = Json.print sink report.stored .empty ∧
        ∀ e, (Json.printPieces sink pieces .empty).2 = .error e → e = .io sink.error ∧
          Failure.ofPrint e = .io sink.error ∧ out.delivery = (Json.printPieces sink pieces .empty).1 ∧
          out.result = .error (Failure.ofPrint e)) ∧
      ∀ chunk, chunk ≠ some 0 → r.run { sink with chunk } c f = out) ∧
    ((out.delivery.flushedAt = [] ∨ out.delivery = ⟨whole, [Sink.lines whole]⟩) ∧
      ∀ next s, Reaches c.measured sink start (.flush next, s) → s.delivery = ⟨whole, []⟩) ∧
    ((out.delivery.bytes ≠ whole → out.StoppedBy sink .full) ∧
      (out.delivery = ⟨whole, []⟩ → out.StoppedBy sink .unflushed) ∧
      (out.delivery = ⟨whole, [Sink.lines whole]⟩ → out.result = .ok report ∨
        r.config.recordHistory = true ∧ ∃ fault, out.result = .error (.history fault)) ∧
      (∀ text, out.result ≠ .error (.output text)) ∧
      ∀ (r' : Runner) (f' : Files) (e : IoError), r'.config.output = .text →
        (r'.run sink c f').result = .error (.io e) → ∃ stop, (r'.run sink c f').StoppedBy sink stop) ∧
    ((∀ bytes, sink.isFull bytes = false) → out.delivery.bytes = whole) ∧
    (out.delivery.bytes = whole → (∀ p, (c.elapsed p).nanos < 2 ^ 64) →
      ∃ text, out.delivery.text? = some text ∧ Report.decode text = .ok report) ∧
    ∀ returned, out.result = .ok returned → returned = report ∧
      ∀ (r' : Runner) (sink' : Sink) (c' : Conditions) (f' : Files) (streamed : Report), r'.config.output = .text →
        (r'.run sink' c' f').result = .ok streamed →
          returned.measurements.map (fun m => (m.probe, m.value)) =
            streamed.measurements.map (fun m => (m.probe, m.value)) := by
  intro report whole out start
  obtain ⟨hbytes, hcases⟩ := delivery_of_json (f := f) (c := c) hjson hchunk
  have hstart : start = (.collecting c.timestamp c.host, ⟨.empty, []⟩) := by
    rw [← script_of_json hjson]
  have hlongest : sink.Longest whole out.delivery.bytes := by
    rw [show out.delivery.bytes = _ from hbytes]
    exact sink.longest_accept whole
  refine ⟨⟨events_of_json hjson hchunk, ?_, ?_, ?_⟩, ⟨hlongest, ?_, ?_, ?_⟩, ⟨?_, ?_⟩, ⟨?_, ?_, ?_, ?_, ?_⟩, ?_, ?_, ?_⟩
  · intro p next s h
    rw [hstart] at h
    exact Script.reaches_measure hchunk h
  · intro v next s h
    rw [hstart] at h
    exact Script.reaches_writing hchunk h rfl
  · intro text next s h
    rw [hstart] at h
    exact Script.reaches_writing hchunk h rfl
  · intro pieces hpieces
    rw [Json.printPieces_eq, hpieces, Sink.write_eq hchunk]
    exact hbytes.symm
  · intro pieces hpieces
    rw [print_of_pieces hpieces]
    exact ⟨rfl, fun e he => run_of_print_error hjson hchunk he⟩
  · exact fun chunk hchunk' => run_congr (Sink.write_chunk hchunk hchunk') fun _ => rfl
  · rcases hcases with ⟨-, hflushed, -⟩ | ⟨hwhole, -⟩ | ⟨hwhole, -⟩
    · exact .inl hflushed
    · exact .inl (congrArg Delivery.flushedAt hwhole)
    · exact .inr hwhole
  · intro next s h
    rw [hstart] at h
    exact Script.reaches_flush hchunk h
  · exact stoppedBy_full_of_json hjson hchunk
  · exact stoppedBy_unflushed_of_json hjson hchunk
  · exact result_of_json hjson hchunk
  · exact result_ne_output
  · exact fun r' f' e _ he => stoppedBy_of_io hchunk he
  · intro hroom
    by_contra hne
    have hfull := hlongest.full hne
    rw [hroom] at hfull
    cases hfull
  · intro hwhole hwords
    exact ⟨_, Delivery.text?_of_bytes hwhole, Report.decode_line (fitsWords_reportOf hwords)⟩
  · intro returned hok
    obtain ⟨hreport, hvalues⟩ := values_of_ok hok
    refine ⟨hreport, fun r' sink' c' f' streamed _ hstreamed => ?_⟩
    rw [hvalues, (values_of_ok hstreamed).2]

/-- A sink that takes three bytes a call and is never full is left with the text of the report. -/
theorem run_collecting_three_bytes :
    let sink : Sink := ⟨fun _ => false, some 3, none, none, .bare .other⟩
    let c : Conditions := ⟨⟨0, 0, by decide, by decide⟩, ⟨"", "", 0⟩, fun _ => .zero, by decide⟩
    let out := Runner.run ⟨⟨.json, false, 100⟩, none⟩ sink c (Files.fresh [])
    out.result = .ok (reportOf c) ∧
      ∃ text, out.delivery.text? = some text ∧ Report.decode text = .ok (reportOf c) := by
  intro sink c
  have hrun := run_collecting ⟨⟨.json, false, 100⟩, none⟩ rfl sink (by decide) c (Files.fresh [])
  generalize Runner.run ⟨⟨.json, false, 100⟩, none⟩ sink c (Files.fresh []) = out at hrun ⊢
  obtain ⟨-, -, ⟨hflushed, -⟩, ⟨-, hunflushed, hdelivered, -⟩, hroom, hread, -⟩ := hrun
  have hbytes := hroom fun _ => rfl
  have hwords : ∀ p, (c.elapsed p).nanos < 2 ^ 64 := fun _ => show Duration.zero.nanos < 2 ^ 64 by decide
  refine ⟨?_, hread hbytes hwords⟩
  rcases hflushed with hnone | hwhole
  · -- without a flush the sink would have stopped the run, but no flush of it fails
    have hstopped : sink.flushes = _ := (hunflushed (Delivery.eq_mk hbytes hnone)).1
    cases (show sink.flushes = none from rfl).symm.trans hstopped
  · rcases hdelivered hwhole with hok | ⟨hrecord, -⟩
    · exact hok
    · exact absurd hrecord Bool.false_ne_true

end Runner

end ProbeSuite
