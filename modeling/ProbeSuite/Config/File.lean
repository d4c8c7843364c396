import ProbeSuite.Failure
import ProbeSuite.Files

/-!
# Configuration files

* `Config.validate` : passes if the limit on the history is in range;
* `Config.load` : the configuration in a file, or the default one where there is no file;
* `Config.save` : writes a valid configuration, and makes the directories on the way to its file.
-/

namespace ProbeSuite.Config

def validate (c : Config) : Except ConfigFault Unit :=
  if c.historyLimit = 0 then .error .limitZero
  else if maxLimit < c.historyLimit then .error (.limitTooLarge c.historyLimit)
  else .ok ()

/-- The valid configuration in a file, or the default one where nothing is. -/
def load (f : Files) (p : Path) : Except ConfigFault Config :=
  if ¬f.has p then .ok default
  else
    match f.readText p with
    | .error e => .error (.unreadable p e)
    | .ok text =>
      match Config.read text with
      | .error fault => .error (.malformed p fault)
      | .ok c => do
        c.validate
        .ok c

def save (c : Config) (f : Files) (p : Path) : Files × Except ConfigFault Unit :=
  match c.validate with
  | .error fault => (f, .error fault)
  | .ok () =>
    match f.makeParent p with
    | (f, .error (parent, e)) => (f, .error (.noDirectory parent e))
    | (f, .ok ()) =>
      match c.toml? with
      | none => (f, .error .unprintable)
      | some text =>
        match f.write p text.toUTF8 with
        | (f, .error e) => (f, .error (.unwritable p e))
        | (f, .ok ()) => (f, .ok ())

end ProbeSuite.Config
