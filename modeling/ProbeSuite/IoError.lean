/-!
# Input and output errors

* `Errno` : an error of the operating system, with its number and its text;
* `IoKind` : kinds of input and output errors, and the text of an error that is no more than its kind;
* `IoError` : an error of the operating system, one with a text of its own, or a bare kind;
* `IoError.message` : its text.
-/

namespace ProbeSuite

/-- An error of the operating system. Its text is on one line. -/
structure Errno where
  number : Nat
  text : String
  oneLine : '\n' ∉ text.toList
  deriving DecidableEq

namespace Errno

def noEntry : Errno := ⟨2, "No such file or directory", by decide⟩
def accessDenied : Errno := ⟨13, "Permission denied", by decide⟩
def fileExists : Errno := ⟨17, "File exists", by decide⟩
def notDirectory : Errno := ⟨20, "Not a directory", by decide⟩
def isDirectory : Errno := ⟨21, "Is a directory", by decide⟩
def noSpace : Errno := ⟨28, "No space left on device", by decide⟩
def brokenPipe : Errno := ⟨32, "Broken pipe", by decide⟩
def nameTooLong : Errno := ⟨36, "File name too long", by decide⟩
def connectionReset : Errno := ⟨104, "Connection reset by peer", by decide⟩

/-- The error of a number, if it is one of those above. -/
def ofNumber? (n : Nat) : Option Errno :=
  [noEntry, accessDenied, fileExists, notDirectory, isDirectory, noSpace, brokenPipe, nameTooLong,
    connectionReset].find? (·.number = n)

end Errno

inductive IoKind where
  | brokenPipe
  | permissionDenied
  | writeZero
  | notFound
  | connectionReset
  | timedOut
  | unexpectedEof
  | invalidInput
  | invalidData
  | wouldBlock
  | alreadyExists
  | storageFull
  | outOfMemory
  | unsupported
  | connectionAborted
  | other
  deriving DecidableEq

def IoKind.text : IoKind → String
  | .brokenPipe => "broken pipe"
  | .permissionDenied => "permission denied"
  | .writeZero => "write zero"
  | .notFound => "entity not found"
  | .connectionReset => "connection reset"
  | .timedOut => "timed out"
  | .unexpectedEof => "unexpected end of file"
  | .invalidInput => "invalid input parameter"
  | .invalidData => "invalid data"
  | .wouldBlock => "operation would block"
  | .alreadyExists => "entity already exists"
  | .storageFull => "no storage space"
  | .outOfMemory => "out of memory"
  | .unsupported => "unsupported"
  | .connectionAborted => "connection aborted"
  | .other => "other error"

inductive IoError where
  | os (errno : Errno)
  | described (kind : IoKind) (text : String)
  | bare (kind : IoKind)
  deriving DecidableEq

namespace IoError

def message : IoError → String
  | .os errno => s!"{errno.text} (os error {errno.number})"
  | .described _ text => text
  | .bare kind => kind.text

/-- Whether the other end of the output is gone. -/
def isBrokenPipe : IoError → Bool
  | .os errno => errno.number = Errno.brokenPipe.number
  | .described kind _ => kind = .brokenPipe
  | .bare kind => kind = .brokenPipe

/-- The error of a sink that takes nothing. -/
def writeZero : IoError := .described .writeZero "failed to write whole buffer"

/-- The error of a file whose bytes are no text. -/
def notText : IoError := .described .invalidData "stream did not contain valid UTF-8"

/-- The error of a path with a NUL in it. -/
def nulInPath : IoError := .described .invalidInput "file name contained an unexpected NUL byte"

end IoError

end ProbeSuite
