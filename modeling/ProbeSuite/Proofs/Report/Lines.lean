import Mathlib.Data.Rat.Floor
import ProbeSuite.Proofs.Duration.Seconds
import ProbeSuite.Proofs.Script.Streaming

/-!
# The two lines of a measurement

* `Measurement.resultLine_inj` : the result line shows the probe and the value;
* `Measurement.timeLine_inj` : up to `2 ^ 22` seconds, the time line shows the time;
* `Script.play_result`, `bytes_of_play_result` : both are written where there is room, and what the sink took then;
* `Measurement.lines_lose_nothing` : no two measurements have the same lines, and what is shown of the time.
-/

namespace ProbeSuite

/-- What stands before the value of a probe. -/
def Probe.front (p : Probe) : List Char :=
  match p.resultLabel with
  | some label => "   ".toList ++ label.toList ++ [':', ' ']
  | none => []

theorem Probe.front_inj {p q : Probe} : p.front = q.front ↔ p = q := by
  cases p <;> cases q <;> decide

theorem Probe.forall_mem_front (p : Probe) : ∀ c ∈ p.front, c.isDigit = false := by
  cases p <;> exact Text.forall_mem_of_all (by decide)

namespace Measurement

variable {a b : Measurement}

theorem toList_resultLine (m : Measurement) : m.resultLine.toList = m.probe.front ++ Nat.toDigits 10 m.value.toNat := by
  unfold resultLine Probe.front
  cases m.probe.resultLabel with
  | none => simp
  | some label =>
    show ("   " ++ label ++ ": " ++ toString m.value.toNat).toList = _
    simp

theorem resultLine_inj : a.resultLine = b.resultLine ↔ a.probe = b.probe ∧ a.value = b.value := by
  have hdigits : ∀ k, ∀ c ∈ Nat.toDigits 10 k, c.isDigit = true := fun k c hc =>
    Nat.isDigit_of_mem_toDigits (by decide) (by decide) hc
  rw [← String.toList_inj, toList_resultLine, toList_resultLine,
    Text.append_inj_of_forall a.probe.forall_mem_front b.probe.forall_mem_front (hdigits _) (hdigits _),
    Probe.front_inj, Text.toDigits_inj, UInt64.toNat_inj]

theorem timeLine_inj (ha : a.elapsed.secs < 2 ^ 22) (hb : b.elapsed.secs < 2 ^ 22) :
    a.timeLine = b.timeLine ↔ a.elapsed = b.elapsed := by
  constructor
  · intro h
    have htext := congrArg String.toList h
    rw [timeLine, timeLine, String.toList_append, String.toList_append, List.append_cancel_left_eq,
      String.toList_inj] at htext
    exact Duration.secondsText_inj ha hb htext
  · intro h
    rw [timeLine, h]
    rfl

end Measurement

namespace Script

/-- A sink that lets a script come to its end took what the script writes. -/
theorem bytes_of_play_ok {α : Type} {sink : Sink} {measured : Probe → Measurement} {script : Script α} {s : Progress}
    {result : α} (h : script.play sink measured ⟨.empty, []⟩ = (s, .ok result)) :
    s.delivery.bytes = written (script.steps measured) := by
  have hends : ∀ sink : Sink, sink.chunk ≠ some 0 → script.play sink measured ⟨.empty, []⟩ = (s, .ok result) →
      s.delivery.bytes = written (script.steps measured) := by
    intro sink hchunk h
    obtain ⟨ended, hends, hresult⟩ := play_ends measured hchunk script
    rw [h] at hends hresult
    cases ended with
    | ok _ => exact (hends.ok_iff.1 rfl).1
    | error e => cases hresult
  by_cases hchunk : sink.chunk = some 0
  · rw [play_congr measured sink (Sink.write_of_chunk_zero hchunk) fun _ => rfl] at h
    exact hends _ (by nofun) h
  · exact hends sink hchunk h

theorem steps_result (measured : Probe → Measurement) (m : Measurement) :
    (result m (.done ())).steps measured = [lineStep m.resultLine, lineStep m.timeLine] := rfl

/-- Both lines of a measurement are written to a sink that is never full. -/
theorem play_result {sink : Sink} (hchunk : sink.chunk ≠ some 0) (hroom : ∀ taken, ¬sink.isFull taken)
    (measured : Probe → Measurement) (m : Measurement) :
    ∃ s, (result m (.done ())).play sink measured ⟨.empty, []⟩ = (s, .ok ()) := by
  obtain ⟨ended, hends, hresult⟩ := play_ends measured hchunk (result m (.done ()))
  have hflush : Step.flush ∉ (result m (.done ())).steps measured := by
    rw [steps_result]
    simp [lineStep]
  rw [hends.ok_of_room hroom hflush] at hresult
  exact ⟨_, Prod.ext rfl hresult⟩

/-- Once both lines of a measurement are written, the sink took them. -/
theorem bytes_of_play_result {sink : Sink} {measured : Probe → Measurement} {m : Measurement} {s : Progress}
    (h : (result m (.done ())).play sink measured ⟨.empty, []⟩ = (s, .ok ())) :
    s.delivery.bytes = Text.bytes ((m.resultLine ++ "\n") ++ (m.timeLine ++ "\n")) := by
  rw [bytes_of_play_ok h, steps_result, written_lineStep, written_lineStep, written_nil, List.append_nil,
    Text.bytes_append (m.resultLine ++ "\n")]

end Script

namespace Measurement

variable {a b : Measurement}

theorem lines_inj (ha : a.elapsed.secs < 2 ^ 22) (hb : b.elapsed.secs < 2 ^ 22) :
    (a.resultLine ++ "\n") ++ (a.timeLine ++ "\n") = (b.resultLine ++ "\n") ++ (b.timeLine ++ "\n") ↔ a = b := by
  have htext : ∀ m : Measurement, ((m.resultLine ++ "\n") ++ (m.timeLine ++ "\n")).toList =
      m.resultLine.toList ++ '\n' :: (m.timeLine.toList ++ '\n' :: []) := fun m => by
    simp
  rw [← String.toList_inj, htext, htext, Text.append_cons_inj a.no_lineEnd_resultLine b.no_lineEnd_resultLine,
    Text.append_cons_inj a.no_lineEnd_timeLine b.no_lineEnd_timeLine, String.toList_inj, String.toList_inj,
    resultLine_inj, timeLine_inj ha hb]
  constructor
  · rintro ⟨⟨hprobe, hvalue⟩, helapsed, -⟩
    obtain ⟨probe, value, elapsed⟩ := a
    obtain ⟨probe', value', elapsed'⟩ := b
    cases hprobe
    cases hvalue
    cases helapsed
    rfl
  · rintro rfl
    exact ⟨⟨rfl, rfl⟩, rfl, rfl⟩

/-- **The two lines of a measurement lose nothing.** They are written where there is room, and two measurements of
less than `2 ^ 22` seconds with the same lines are the same. The time is a plain number that, rounded to nanoseconds,
is the duration; below a second it is the duration itself, without zeros at its end. -/
theorem lines_lose_nothing :
    (∀ (m : Measurement) (sink : Sink) (measured : Probe → Measurement),
      sink.chunk ≠ some 0 → (∀ taken, ¬sink.isFull taken) →
        ∃ s, (Script.result m (.done ())).play sink measured ⟨.empty, []⟩ = (s, .ok ())) ∧
    (∀ a b : Measurement, a.elapsed.secs < 2 ^ 22 → b.elapsed.secs < 2 ^ 22 →
      ∀ (sink sink' : Sink) (measured measured' : Probe → Measurement) (s s' : Script.Progress),
        (Script.result a (.done ())).play sink measured ⟨.empty, []⟩ = (s, .ok ()) →
        (Script.result b (.done ())).play sink' measured' ⟨.empty, []⟩ = (s', .ok ()) →
        s.delivery.bytes = s'.delivery.bytes → a = b) ∧
    (∀ d : Duration, d.secs < 2 ^ 22 → ∃ p : Plain, d.secondsText.toList = p.text ∧
      round (p.value * nanosPerSec) = d.nanos ∧ |p.value * nanosPerSec - d.nanos| < 1 / 2) ∧
    ∀ d : Duration, d.nanos < nanosPerSec → ∃ p : Plain, d.secondsText.toList = p.text ∧
      p.whole = ['0'] ∧ p.value = d.nanos / nanosPerSec ∧ p.fraction.getLast? ≠ some '0' := by
  refine ⟨fun m sink measured hchunk hroom => Script.play_result hchunk hroom measured m, ?_, ?_, ?_⟩
  · intro a b ha hb sink sink' measured measured' s s' hplay hplay' hbytes
    rw [Script.bytes_of_play_result hplay, Script.bytes_of_play_result hplay', Text.bytes_inj] at hbytes
    exact (lines_inj ha hb).1 hbytes
  · intro d hlt
    obtain ⟨p, htext, hp⟩ := Duration.exists_plain_secondsText hlt
    obtain ⟨hlow, hhigh⟩ := abs_lt.1 hp
    refine ⟨p, htext, round_eq_iff.2 ⟨?_, ?_⟩, hp⟩
    · rw [Int.cast_natCast]
      linarith
    · rw [Int.cast_natCast]
      linarith
  · exact fun d => Duration.exists_plain_of_lt

/-- A time whose shortest decimal is not the duration, written at once and byte by byte, and one below a second. -/
theorem lines_lose_nothing_rounded_twice :
    let a : Measurement := ⟨.mapAccess, 7, ⟨19503211018, by decide⟩⟩
    let b : Measurement := ⟨.mapAccess, 7, ⟨19 * nanosPerSec + 503211018, by decide⟩⟩
    let slow : Sink := ⟨fun _ => false, some 1, none, none, .bare .other⟩
    let played : Sink → Measurement → Script.Progress × Except Failure Unit := fun sink m =>
      (Script.result m (.done ())).play sink (fun _ => m) ⟨.empty, []⟩
    (played .unlimited a).2 = .ok () ∧ (played slow b).2 = .ok () ∧
      (played .unlimited a).1.delivery.bytes = (played slow b).1.delivery.bytes ∧ a = b ∧
      (∃ p : Plain, "19.503211018000002".toList = p.text ∧ round (p.value * nanosPerSec) = (19503211018 : ℕ) ∧
        |p.value * nanosPerSec - (19503211018 : ℕ)| < 1 / 2) ∧
      ∃ p : Plain, "0.00025".toList = p.text ∧ p.whole = ['0'] ∧ p.value = (250000 : ℕ) / nanosPerSec ∧
        p.fraction.getLast? ≠ some '0' := by
  intro a b slow played
  have hbytes : (played .unlimited a).1.delivery.bytes = (played slow b).1.delivery.bytes := by decide +kernel
  obtain ⟨hwritten, hlines, hseconds, hbelow⟩ := lines_lose_nothing
  obtain ⟨s, ha⟩ := hwritten a .unlimited (fun _ => a) nofun fun _ => Bool.false_ne_true
  obtain ⟨s', hb⟩ := hwritten b slow (fun _ => b) (by decide) fun _ => Bool.false_ne_true
  have htext : a.elapsed.secondsText.toList = "19.503211018000002".toList := by decide +kernel
  have htext' : (Duration.secondsText ⟨250000, by decide⟩).toList = "0.00025".toList := by decide +kernel
  have ha' : (played .unlimited a).2 = .ok () := congrArg Prod.snd ha
  have hb' : (played slow b).2 = .ok () := congrArg Prod.snd hb
  exact ⟨ha', hb', hbytes,
    hlines a b (by decide) (by decide) .unlimited slow _ _ _ _ (Prod.ext rfl ha') (Prod.ext rfl hb') hbytes,
    htext ▸ hseconds a.elapsed (by decide), htext' ▸ hbelow ⟨250000, by decide⟩ (by decide)⟩

end Measurement

end ProbeSuite
