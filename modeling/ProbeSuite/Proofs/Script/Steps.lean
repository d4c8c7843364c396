import ProbeSuite.Proofs.Json.Printer
import ProbeSuite.Script

/-!
# Scripts as lists of steps

Once it is known what the probes measure, a script is a list of steps. To print a value is to write its text.

* `Script.steps`, `outcome` : the steps of a script, and its result;
* `Script.perform`, `performAll` : one step against a sink, and steps until one fails;
* `Script.play_eq` : to play a script is to perform its steps, and a failure is one of the sink;
* `Script.play_congr` : only what a sink writes and flushes matters;
* `Script.after` : what some steps do if none fails.
-/

namespace ProbeSuite

namespace Script

/-- A step of a script. -/
inductive Step where
  | write (text : String)
  | flush
  | measure (probe : Probe)
  deriving DecidableEq

section

variable {α : Type} (measured : Probe → Measurement)

/-- The steps of a script, with what the probes measure. -/
def steps : Script α → List Step
  | .done _ => []
  | .write text next => .write text :: steps next
  | .print v next => .write (String.ofList v.pretty) :: steps next
  | .flush next => .flush :: steps next
  | .measure p next => .measure p :: steps (next (measured p))

/-- The result of a script that comes to its end. -/
def outcome : Script α → α
  | .done a => a
  | .write _ next => outcome next
  | .print _ next => outcome next
  | .flush next => outcome next
  | .measure p next => outcome (next (measured p))

variable (sink : Sink)

/-- Performs a step. -/
def perform : Step → Progress → Progress × Except IoError Unit
  | .write text, s => ({ s with delivery := (sink.write text s.delivery).1 }, (sink.write text s.delivery).2)
  | .flush, s => ({ s with delivery := (sink.flush s.delivery).1 }, (sink.flush s.delivery).2)
  | .measure p, s => ({ s with events := s.events ++ [.probeStarted p, .probeFinished (measured p)] }, .ok ())

/-- Performs steps until one fails. -/
def performAll : List Step → Progress → Progress × Except IoError Unit
  | [], s => (s, .ok ())
  | step :: rest, s =>
    match perform measured sink step s with
    | (s, .ok ()) => performAll rest s
    | (s, .error e) => (s, .error e)

/-- **To play a script is to perform its steps.** Whether it writes or prints, it fails with the error of the sink. -/
theorem play_eq (script : Script α) (s : Progress) : script.play sink measured s =
    ((performAll measured sink (script.steps measured) s).1,
      ((performAll measured sink (script.steps measured) s).2.mapError Failure.io).map
        fun _ => script.outcome measured) := by
  induction script generalizing s with
  | done a => rfl
  | write text next ih =>
    simp only [play, steps, performAll, perform]
    rcases sink.write text s.delivery with ⟨d, e | _⟩
    · rfl
    · exact ih _
  | print v next ih =>
    simp only [play, steps, performAll, perform, Json.print_eq]
    rcases sink.write (String.ofList v.pretty) s.delivery with ⟨d, e | _⟩
    · rfl
    · exact ih _
  | flush next ih =>
    simp only [play, steps, performAll, perform]
    rcases sink.flush s.delivery with ⟨d, e | _⟩
    · rfl
    · exact ih _
  | measure p next ih => exact ih (measured p) _

/-- A script is played alike against sinks that write and flush alike. -/
theorem play_congr {sink' : Sink} (hwrite : ∀ text d, sink.write text d = sink'.write text d)
    (hflush : ∀ d, sink.flush d = sink'.flush d) (script : Script α) (s : Progress) :
    script.play sink measured s = script.play sink' measured s := by
  induction script generalizing s with
  | done a => rfl
  | write text next ih =>
    rw [play, play, hwrite]
    rcases sink'.write text s.delivery with ⟨d, e | _⟩
    · rfl
    · exact ih _
  | print v next ih =>
    rw [play, play, Json.print_eq, Json.print_eq, hwrite]
    rcases sink'.write (String.ofList v.pretty) s.delivery with ⟨d, e | _⟩
    · rfl
    · exact ih _
  | flush next ih =>
    rw [play, play, hflush]
    rcases sink'.flush s.delivery with ⟨d, e | _⟩
    · rfl
    · exact ih _
  | measure p next ih => exact ih (measured p) _

/-! ## What steps do -/

/-- The bytes a step writes. -/
def Step.bytes : Step → List UInt8
  | .write text => Text.bytes text
  | .flush => []
  | .measure _ => []

/-- The bytes that steps write. -/
def written (steps : List Step) : List UInt8 := steps.flatMap Step.bytes

/-- The numbers of lines at which steps flush, after some lines. -/
def flushesFrom (n : Nat) : List Step → List Nat
  | [] => []
  | .flush :: rest => n :: flushesFrom n rest
  | step :: rest => flushesFrom (n + Sink.lines step.bytes) rest

/-- The probes that steps start. -/
def started (steps : List Step) : List Probe :=
  steps.filterMap fun step => match step with
    | .measure p => some p
    | _ => none

/-- The events of probes that ran. -/
def eventsOf (probes : List Probe) : List Event :=
  probes.flatMap fun p => [.probeStarted p, .probeFinished (measured p)]

/-- What steps do from the start if none fails. -/
def after (steps : List Step) : Progress := ⟨⟨written steps, flushesFrom 0 steps⟩, eventsOf measured (started steps)⟩

theorem written_nil : written [] = [] := rfl

theorem written_append (xs ys : List Step) : written (xs ++ ys) = written xs ++ written ys := List.flatMap_append

theorem written_cons (step : Step) (rest : List Step) : written (step :: rest) = step.bytes ++ written rest :=
  List.flatMap_cons

theorem written_write (text : String) (rest : List Step) :
    written (.write text :: rest) = Text.bytes text ++ written rest := written_cons _ _

theorem written_flush (rest : List Step) : written (.flush :: rest) = written rest := written_cons _ _

theorem written_measure (p : Probe) (rest : List Step) : written (.measure p :: rest) = written rest :=
  written_cons _ _

theorem written_isPrefix {xs ys : List Step} (h : xs <+: ys) : written xs <+: written ys := by
  obtain ⟨zs, rfl⟩ := h
  rw [written_append]
  exact List.prefix_append _ _

theorem started_write (text : String) (rest : List Step) : started (.write text :: rest) = started rest := rfl

theorem started_append (xs ys : List Step) : started (xs ++ ys) = started xs ++ started ys := List.filterMap_append

theorem flushesFrom_append (n : Nat) (xs ys : List Step) :
    flushesFrom n (xs ++ ys) = flushesFrom n xs ++ flushesFrom (n + Sink.lines (written xs)) ys := by
  induction xs generalizing n with
  | nil => rfl
  | cons x xs ih =>
    have hlines : Sink.lines (written (x :: xs)) = Sink.lines x.bytes + Sink.lines (written xs) :=
      List.count_append
    rw [hlines, ← Nat.add_assoc]
    cases x with
    | write text => exact ih _
    | flush => exact congrArg (n :: ·) (ih n)
    | measure p => exact ih _

theorem flushesFrom_isPrefix {n : Nat} {xs ys : List Step} (h : xs <+: ys) :
    flushesFrom n xs <+: flushesFrom n ys := by
  obtain ⟨zs, rfl⟩ := h
  rw [flushesFrom_append]
  exact List.prefix_append _ _

theorem length_flushesFrom (n : Nat) (steps : List Step) : (flushesFrom n steps).length = steps.count .flush := by
  induction steps generalizing n with
  | nil => rfl
  | cons step rest ih =>
    cases step with
    | write text => rw [List.count_cons_of_ne (by nofun)]; exact ih _
    | flush => rw [List.count_cons_self, ← ih n]; rfl
    | measure p => rw [List.count_cons_of_ne (by nofun)]; exact ih _

theorem after_write (done : List Step) (text : String) :
    after measured (done ++ [.write text]) =
      ⟨⟨written done ++ Text.bytes text, flushesFrom 0 done⟩, eventsOf measured (started done)⟩ := by
  simp [after, written, flushesFrom_append, started, flushesFrom, Step.bytes]

theorem after_flush (done : List Step) :
    after measured (done ++ [.flush]) = ⟨⟨written done, flushesFrom 0 done ++ [Sink.lines (written done)]⟩,
      eventsOf measured (started done)⟩ := by
  simp [after, written, flushesFrom_append, started, flushesFrom, Step.bytes]

theorem after_measure (done : List Step) (p : Probe) :
    after measured (done ++ [.measure p]) = ⟨⟨written done, flushesFrom 0 done⟩,
      eventsOf measured (started done) ++ [.probeStarted p, .probeFinished (measured p)]⟩ := by
  simp [after, written, flushesFrom_append, started, flushesFrom, Step.bytes, eventsOf]

end

end Script

end ProbeSuite
