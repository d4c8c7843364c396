import ProbeSuite.Runner

/-!
# The command line

The program runs the suite with the default configuration and writes the text report to its standard output.
It takes no notice of arguments. Standard output is the handle that the program is given, not the file behind it: the
handle of a process that was started without one takes everything and says so.

* `CommandLine.run` : what a process leaves behind;
* `CommandLine.exit` : how it ends, by what its run left;
* `CommandLine.isLogged` : what its log shows, which goes to standard error too.
-/

namespace ProbeSuite.CommandLine

/-- What a process leaves behind. Standard error has a line for each event that is logged, and the complaint after
them. -/
structure Exit where
  code : UInt32
  output : Delivery
  logged : List Event
  complaint : String
  files : Files

/-- Whether the log shows an event: those that matter less than a warning are left out. -/
def isLogged (event : Event) : Bool := event.level = .warn

def exitCode : Except Failure Report → UInt32
  | .ok _ => 0
  | .error _ => 1

/-- The text on standard error: one line for a failure, nothing otherwise. -/
def complaint : Except Failure Report → String
  | .ok _ => ""
  | .error failure => failure.friendly ++ "\n"

def exit (o : Outcome) : Exit :=
  ⟨exitCode o.result, o.delivery, o.events.filter isLogged, complaint o.result, o.files⟩

/-- A process with its arguments, environment, standard output and files. -/
def run (_args : List String) (e : Environment) (out : Sink) (c : Conditions) (f : Files) : Exit :=
  exit <|
    match Runner.make .default e with
    | .error failure => ⟨f, .empty, [], .error failure⟩
    | .ok r => r.run out c f

end ProbeSuite.CommandLine
