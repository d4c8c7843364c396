import ProbeSuite.Files.Path
import ProbeSuite.IoError
import ProbeSuite.Natural
import ProbeSuite.Text.Characters

/-!
# Files

A file system says what stands at each place under its root: a file, a directory or nothing. A place is the
list of names that lead to it. Any access may also be refused for a reason of the system's own, as a file is that
can only be read; a refused access changes nothing. A file that is open for writing may still run out of room.

* `Files.at?` : what stands at a place;
* `Files.walk`, `Files.find` : the place that a path leads to, and what stands there;
* `Files.read`, `makeDirectory`, `remove` : one access each;
* `Files.opens`, `Files.write` : a file is opened, which takes away what it held, and then gets its content;
* `Files.makeDirectories` : a directory and those above it; `Files.makeParent` : those above a path.
-/

namespace ProbeSuite

/-- What stands at a place. -/
inductive Entry where
  | file (content : ByteArray)
  | directory

/-- The names that lead from the root to an entry. -/
abbrev Place := List Name

/-- What an access does to a place. -/
inductive Access where
  | read
  | write
  | makeDirectory
  | remove
  deriving DecidableEq

structure Files where
  entry : Place → Option Entry
  current : Place
  /-- The accesses that are refused. -/
  refusal : Access → Place → Option Errno
  /-- How many bytes can be written to a file, if not any number, and what goes wrong then. -/
  room : Place → Option (Nat × Errno)

namespace Files

open Text (byteLength)

/-- A file system that refuses nothing, with no more than the directories down to the current one. -/
def fresh (current : Place) : Files where
  entry p := if p.isPrefixOf current then some .directory else none
  current := current
  refusal _ _ := none
  room _ := none

/-- What stands at a place; at the root there is always a directory. -/
def at? (f : Files) (p : Place) : Option Entry := if p.isEmpty then some .directory else f.entry p

/-- The file system with an entry put at a place, or taken from it. -/
def set (f : Files) (p : Place) (e : Option Entry) : Files :=
  { f with entry := fun q => if q = p then e else f.entry q }

/-! ## Finding places -/

/-- The longest name, in bytes. -/
def maxName : Nat := 255

/-- The longest path, in bytes. -/
def maxPath : Nat := 4095

/-- The place that names lead to from a place. Every name but the last must be that of a directory. -/
def walk (f : Files) : Place → List Name → Except Errno Place
  | here, [] => .ok here
  | here, n :: ns =>
    match f.at? here with
    | none => .error .noEntry
    | some (.file _) => .error .notDirectory
    | some .directory =>
      if n = ['.'] then walk f here ns
      else if n = ['.', '.'] then walk f here.dropLast ns
      else if maxName < byteLength n then .error .nameTooLong
      else walk f (here ++ [n]) ns

def start (f : Files) (p : Path) : Place := if p.isAbsolute then [] else f.current

def usable (p : Path) : Except IoError Unit :=
  if '\x00' ∈ p then .error .nulInPath
  else if p.isEmpty then .error (.os .noEntry)
  else if maxPath < byteLength p then .error (.os .nameTooLong)
  else .ok ()

/-- An error of the operating system, as an error of an access. -/
def lift {α : Type} : Except Errno α → Except IoError α
  | .ok a => .ok a
  | .error e => .error (.os e)

def find (f : Files) (p : Path) : Except IoError (Place × Entry) := do
  usable p
  let place ← lift (f.walk (f.start p) p.names)
  match f.at? place with
  | none => .error (.os .noEntry)
  | some .directory => .ok (place, .directory)
  | some (.file content) => if p.isSlashed then .error (.os .notDirectory) else .ok (place, .file content)

/-- The null device takes every content and holds none. It is the one device here, and it has this one name. -/
def nullDevice : Path := "/dev/null".toList

def has (f : Files) (p : Path) : Bool :=
  match f.find p with
  | .ok _ => true
  | .error _ => p = nullDevice

def isDirectory (f : Files) (p : Path) : Bool :=
  match f.find p with
  | .ok (_, .directory) => true
  | _ => false

/-- The directory that holds the last name of a path, and that name; the name is missing from the root, and
when it leads nowhere new. -/
def holder (f : Files) (p : Path) : Except IoError (Place × Option Name) := do
  usable p
  let place ← lift (f.walk (f.start p) p.names.dropLast)
  match f.at? place with
  | none => .error (.os .noEntry)
  | some (.file _) => .error (.os .notDirectory)
  | some .directory =>
    match p.names.getLast? with
    | none => .ok (place, none)
    | some n => .ok (place, if n = ['.'] ∨ n = ['.', '.'] then none else some n)

def child (here : Place) (n : Name) : Except IoError Place :=
  if maxName < byteLength n then .error (.os .nameTooLong) else .ok (here ++ [n])

def permit (f : Files) (a : Access) (p : Place) : Except IoError Unit :=
  match f.refusal a p with
  | some e => .error (.os e)
  | none => .ok ()

/-! ## Accesses -/

def read (f : Files) (p : Path) : Except IoError ByteArray :=
  if p = nullDevice then .ok .empty
  else do
    let (place, e) ← f.find p
    f.permit .read place
    match e with
    | .file content => .ok content
    | .directory => .error (.os .isDirectory)

def readText (f : Files) (p : Path) : Except IoError String := do
  match String.fromUTF8? (← f.read p) with
  | some text => .ok text
  | none => .error .notText

/-- The place of the file that a path opens for writing. -/
def opens (f : Files) (p : Path) : Except IoError Place := do
  let (here, name) ← f.holder p
  match name with
  | none => .error (.os .isDirectory)
  | some n =>
    if p.isSlashed then .error (.os .isDirectory)
    else
      let place ← child here n
      match f.at? place with
      | some .directory => .error (.os .isDirectory)
      | _ =>
        f.permit .write place
        .ok place

/-- Gives a file its content, and makes the file if there is none. A file without room for all of the content is left
with the front of it. -/
def write (f : Files) (p : Path) (content : ByteArray) : Files × Except IoError Unit :=
  if p = nullDevice then (f, .ok ())
  else
    match f.opens p with
    | .error e => (f, .error e)
    | .ok place =>
      match (f.room place).filter (·.1 < content.size) with
      | some (n, e) => (f.set place (some (.file (content.extract 0 n))), .error (.os e))
      | none => (f.set place (some (.file content)), .ok ())

/-- Makes a directory in one that exists. -/
def makeDirectory (f : Files) (p : Path) : Except IoError Files := do
  let (here, name) ← f.holder p
  match name with
  | none => .error (.os .fileExists)
  | some n =>
    let place ← child here n
    match f.at? place with
    | some _ => .error (.os .fileExists)
    | none =>
      f.permit .makeDirectory place
      .ok (f.set place (some .directory))

/-- Removes a file. The null device stays. -/
def remove (f : Files) (p : Path) : Except IoError Files :=
  if p = nullDevice then .error (.os .accessDenied)
  else do
    let (here, name) ← f.holder p
    match name with
    | none => .error (.os .isDirectory)
    | some n =>
      let place ← child here n
      match f.at? place with
      | none => .error (.os .noEntry)
      | some .directory => .error (.os .isDirectory)
      | some (.file _) =>
        if p.isSlashed then .error (.os .notDirectory)
        else
          f.permit .remove place
          .ok (f.set place none)

/-- Makes a directory and those above it, unless it is there. On an error some of them may have been made,
so the file system is given in any case. The first list only bounds the recursion: a parent is shorter. -/
def makeDirectoriesFrom : List Char → Path → Files → Files × Except IoError Unit
  | [], _, f => (f, .error (.os .noEntry))
  | _ :: bound, p, f =>
    match f.makeDirectory p with
    | .ok f => (f, .ok ())
    | .error e =>
      if e = .os .noEntry then
        match p.parent? with
        | none => (f, .error (.described .other "failed to create whole tree"))
        | some parent =>
          let (f, made) := if parent.isEmpty then (f, .ok ()) else makeDirectoriesFrom bound parent f
          match made with
          | .error e => (f, .error e)
          | .ok () =>
            match f.makeDirectory p with
            | .ok f => (f, .ok ())
            | .error e => if f.isDirectory p then (f, .ok ()) else (f, .error e)
      else if f.isDirectory p then (f, .ok ())
      else (f, .error e)

def makeDirectories (f : Files) (p : Path) : Files × Except IoError Unit :=
  if p.isEmpty then (f, .ok ()) else makeDirectoriesFrom p p f

/-- Makes the directory that a path lies in, and those above it; an error names that directory. -/
def makeParent (f : Files) (p : Path) : Files × Except (Path × IoError) Unit :=
  match p.parent? with
  | none => (f, .ok ())
  | some parent =>
    match f.makeDirectories parent with
    | (f, .ok ()) => (f, .ok ())
    | (f, .error e) => (f, .error (parent, e))

end Files

end ProbeSuite
