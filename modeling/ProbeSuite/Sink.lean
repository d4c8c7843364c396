import ProbeSuite.IoError

/-!
# Sinks

A sink takes bytes one after another until it is full, a few at a time, and may be flushed. What it does
depends on nothing but what it took.

* `Sink` : when it is full, how much a call takes at most, how it fails;
* `Delivery` : what a sink took, and where it was flushed;
* `Sink.call`, `Sink.write`, `Sink.flush` : one call, a whole text, a flush;
* `Sink.accept` : the bytes of a text that still fit.
-/

namespace ProbeSuite

structure Sink where
  /-- Whether it takes no more after these bytes. -/
  isFull : List UInt8 → Bool
  /-- How many bytes one call takes at most. -/
  chunk : Option Nat
  /-- The error when it can take nothing; without one it takes no bytes and says so. -/
  refusal : Option IoError
  /-- How many flushes succeed. -/
  flushes : Option Nat
  /-- The error of the others. -/
  flushError : IoError

/-- The bytes a sink took, and the number of lines it had taken at each flush, oldest first. -/
structure Delivery where
  bytes : List UInt8
  flushedAt : List Nat
  deriving DecidableEq

namespace Sink

def unlimited : Sink := ⟨fun _ => false, none, none, none, .bare .other⟩

/-- A sink that takes nothing and fails with an error. -/
def failing (e : IoError) : Sink := ⟨fun _ => true, none, some e, none, e⟩

def lines (bytes : List UInt8) : Nat := bytes.count 10

/-- Whether some bytes reach a number of bytes, a number of lines, or a marker at their end. -/
def reaches (bytes? lines? : Option Nat) (marker? : Option (List UInt8)) (taken : List UInt8) : Bool :=
  bytes?.any (· ≤ taken.length) || lines?.any (· ≤ lines taken) || marker?.any (·.isSuffixOf taken)

/-- The bytes that a sink takes from the front of a text, after what it took. -/
def accept (s : Sink) (taken : List UInt8) : List UInt8 → List UInt8
  | [] => []
  | b :: bs => if s.isFull taken then [] else b :: accept s (taken ++ [b]) bs

/-- The bytes that one call takes. -/
def call (s : Sink) (taken bytes : List UInt8) : List UInt8 :=
  match s.chunk with
  | some n => s.accept taken (bytes.take n)
  | none => s.accept taken bytes

/-- The error of a call that takes nothing. -/
def error (s : Sink) : IoError := s.refusal.getD .writeZero

/-- Calls until all bytes are taken or a call takes none. The first list only bounds the recursion. -/
def writeFrom (s : Sink) : List UInt8 → List UInt8 → Delivery → Delivery × Except IoError Unit
  | _, [], d => (d, .ok ())
  | [], _ :: _, d => (d, .error s.error)
  | _ :: bound, bytes, d =>
    let took := s.call d.bytes bytes
    if took.isEmpty then (d, .error s.error)
    else writeFrom s bound (bytes.drop took.length) { d with bytes := d.bytes ++ took }

def write (s : Sink) (text : String) (d : Delivery) : Delivery × Except IoError Unit :=
  let bytes := text.toUTF8.toList
  s.writeFrom bytes bytes d

def flush (s : Sink) (d : Delivery) : Delivery × Except IoError Unit :=
  if s.flushes.any (· ≤ d.flushedAt.length) then (d, .error s.flushError)
  else ({ d with flushedAt := d.flushedAt ++ [lines d.bytes] }, .ok ())

end Sink

def Delivery.empty : Delivery := ⟨[], []⟩

/-- The text a sink took, if it ends between two characters. -/
def Delivery.text? (d : Delivery) : Option String := String.fromUTF8? ⟨d.bytes.toArray⟩

end ProbeSuite
