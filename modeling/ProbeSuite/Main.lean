import ProbeSuite.CommandLine

/-!
# The program

`perform` plays a script against an output and the clock of the system, and `main` is the command line.
-/

namespace ProbeSuite

/-- An error of the system, as an error of the output. -/
def ioError (e : IO.Error) : IoError :=
  let known (code : UInt32) : IoError :=
    match Errno.ofNumber? code.toNat with
    | some errno => .os errno
    | none => .described .other (toString e)
  match e with
  | .resourceVanished code _ => known code
  | .resourceExhausted _ code _ => known code
  | .otherError code _ => known code
  | e => .described .other (toString e)

/-- Plays a script. Only the work of a probe is timed, and what was delivered is not kept. -/
def perform {α : Type} (out : IO.FS.Stream) : Script α → List Event → IO (Script.Progress × Except Failure α)
  | .done a, events => return (⟨.empty, events⟩, .ok a)
  | .write text next, events => do
    match ← (out.putStr text).toBaseIO with
    | .ok () => perform out next events
    | .error e => return (⟨.empty, events⟩, .error (.ofIo (ioError e)))
  | .print v next, events => do
    match ← (v.pieces.forM fun piece => out.putStr (String.ofList piece)).toBaseIO with
    | .ok () => perform out next events
    | .error e => return (⟨.empty, events⟩, .error (.ofPrint (.io (ioError e))))
  | .flush next, events => do
    match ← out.flush.toBaseIO with
    | .ok () => perform out next events
    | .error e => return (⟨.empty, events⟩, .error (.ofIo (ioError e)))
  | .measure p next, events => do
    let start ← IO.monoNanosNow
    let value ← IO.lazyPure fun _ => p.value
    let stop ← IO.monoNanosNow
    let m : Measurement := ⟨p, value, .ofWord (UInt64.ofNat (stop - start))⟩
    perform out (next m) (events ++ [.probeStarted p, .probeFinished m])

end ProbeSuite

open ProbeSuite in
/-- The command line. The report shows neither the time nor the host, and the default configuration keeps no history. -/
def main (_args : List String) : IO UInt32 := do
  let outcome ←
    match Runner.make .default ⟨none, none, none⟩ with
    | .error failure => pure ⟨.fresh [], .empty, [], .error failure⟩
    | .ok r => r.conclude (.fresh []) <$> perform (← IO.getStdout) (r.script .epoch ⟨"", "", 1⟩) []
  let exit := CommandLine.exit outcome
  (← IO.getStderr).putStr exit.complaint
  return exit.code
