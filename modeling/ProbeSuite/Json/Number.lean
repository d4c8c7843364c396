import ProbeSuite.Json.Fault

/-!
# Numbers in JSON

A number is an integer if it has neither fraction nor exponent and fits a 64-bit word, unsigned or, with a
minus sign, signed; `-0` and every other number are binary64.

The magnitude of such a number takes the digits that fit a 64-bit word, drops the others, rounds to
binary64, and then multiplies or divides by a power of ten, rounding again. Powers beyond the range of
binary64 are divided out in steps of `10 ^ 308`.

* `Number.read` : a number, after its minus sign if it has one;
* `skipNumber` : the same text without a value.
-/

namespace ProbeSuite.Json

inductive Number where
  /-- An unsigned word. -/
  | natural (n : Nat)
  /-- The negative of a positive number, and a signed word. -/
  | negative (n : Nat)
  | float (minus : Bool) (magnitude : Binary64)
  deriving DecidableEq

/-- What a number is where something else was expected. -/
def Number.found : Number → Found
  | .natural n => .integer n
  | .negative n => .integer (-n)
  | .float minus magnitude => .float minus magnitude

def startsWithDigit : List Char → Bool
  | c :: _ => c.isDigit
  | [] => false

namespace Number

/-- A digit at the end of a word, if the result is a word. The bound is no term to compute with by unfolding. -/
@[irreducible] def push? (word : Nat) (c : Char) : Option Nat :=
  let n := word * 10 + (c.toNat - 48)
  if n < 2 ^ 64 then some n else none

/-- `f` times or by `10 ^ |exponent|`, in steps that binary64 can take; `none` beyond its range. -/
def scale : (steps : Nat) → (f : Binary64) → (exponent : Int) → Option Binary64
  | 0, f, _ => some f
  | steps + 1, f, exponent =>
    if exponent.natAbs ≤ 308 then
      let power := Binary64.ofNat (10 ^ exponent.natAbs)
      if exponent < 0 then some (f.div power)
      else
        let f := f.mul power
        if f.isFinite then some f else none
    else if f.significand = 0 then some f
    else if 0 ≤ exponent then none
    else scale steps (f.div (Binary64.ofNat (10 ^ 308))) (exponent + 308)

/-- The number with this significand and power of ten. Four steps take any word to zero. -/
def assemble (minus : Bool) (significand : Nat) (exponent : Int) (cs : List Char) :
    Except Fault (Number × List Char) :=
  match scale 4 (Binary64.ofNat significand) exponent with
  | some f => .ok (.float minus f, cs)
  | none => .error (.at .numberOutOfRange cs)

/-- The digits of an exponent. Past 31 bits only the sign matters. -/
def exponentDigits (minus : Bool) (significand : Nat) (start : Int) (down : Bool) :
    (value : Nat) → List Char → Except Fault (Number × List Char)
  | value, [] => assemble minus significand (if down then start - value else start + value) []
  | value, c :: cs =>
    if c.isDigit then
      let n := value * 10 + (c.toNat - 48)
      if n < 2 ^ 31 then exponentDigits minus significand start down n cs
      else if significand ≠ 0 ∧ ¬down then .error (.at .numberOutOfRange cs)
      else .ok (.float minus .zero, cs.dropWhile Char.isDigit)
    else assemble minus significand (if down then start - value else start + value) (c :: cs)

/-- What follows `e`: a sign and at least one digit. -/
def exponentPart (minus : Bool) (significand : Nat) (start : Int) (cs : List Char) :
    Except Fault (Number × List Char) :=
  let (down, cs) :=
    match cs with
    | '+' :: cs => (false, cs)
    | '-' :: cs => (true, cs)
    | cs => (false, cs)
  match cs with
  | [] => .error (.at .eofValue [])
  | c :: rest =>
    if c.isDigit then exponentDigits minus significand start down (c.toNat - 48) rest
    else .error (.past .invalidNumber (c :: rest))

/-- The end of a number whose significand and power of ten are known but for an exponent. -/
def finish (minus : Bool) (significand : Nat) (exponent : Int) (cs : List Char) :
    Except Fault (Number × List Char) :=
  match cs with
  | 'e' :: rest => exponentPart minus significand exponent rest
  | 'E' :: rest => exponentPart minus significand exponent rest
  | cs => assemble minus significand exponent cs

/-- The digits after a point; those that no longer fit the word are dropped. -/
def fractionDigits (minus : Bool) (before : Int) :
    (significand places : Nat) → List Char → Except Fault (Number × List Char)
  | significand, places, [] =>
    if places = 0 then .error (.at .eofValue []) else finish minus significand (before - places) []
  | significand, places, c :: cs =>
    if c.isDigit then
      match push? significand c with
      | some n => fractionDigits minus before n (places + 1) cs
      | none => finish minus significand (before - places) (cs.dropWhile Char.isDigit)
    else if places = 0 then .error (.past .invalidNumber (c :: cs))
    else finish minus significand (before - places) (c :: cs)

/-- What follows the digits of the integer part, if the number is a binary64 one. -/
def afterInteger (minus : Bool) (significand : Nat) (exponent : Int) (cs : List Char) :
    Except Fault (Number × List Char) :=
  match cs with
  | '.' :: rest => fractionDigits minus exponent significand 0 rest
  | cs => finish minus significand exponent cs

def ofInteger (minus : Bool) (n : Nat) : Number :=
  if ¬minus then .natural n
  else if n = 0 ∨ 2 ^ 63 < n then .float true (Binary64.ofNat n)
  else .negative n

/-- What follows the digits of the integer part, all of which fit the word. -/
def afterWord (minus : Bool) (significand : Nat) (cs : List Char) : Except Fault (Number × List Char) :=
  match cs with
  | '.' :: _ => afterInteger minus significand 0 cs
  | 'e' :: _ => afterInteger minus significand 0 cs
  | 'E' :: _ => afterInteger minus significand 0 cs
  | cs => .ok (ofInteger minus significand, cs)

/-- The digits of the integer part after the first. Those that do not fit the word count as powers of ten. -/
def integerDigits (minus : Bool) : (significand : Nat) → List Char → Except Fault (Number × List Char)
  | significand, [] => afterWord minus significand []
  | significand, c :: cs =>
    if c.isDigit then
      match push? significand c with
      | some n => integerDigits minus n cs
      | none =>
        let more := (c :: cs).takeWhile Char.isDigit
        afterInteger minus significand more.length ((c :: cs).dropWhile Char.isDigit)
    else afterWord minus significand (c :: cs)

/-- A number, after its minus sign if it is negative. A zero is the only digit of its integer part. -/
def read (minus : Bool) (cs : List Char) : Except Fault (Number × List Char) :=
  match cs with
  | [] => .error (.at .eofValue [])
  | '0' :: rest =>
    if startsWithDigit rest then .error (.past .invalidNumber rest) else afterWord minus 0 rest
  | c :: rest =>
    if c.isDigit then integerDigits minus (c.toNat - 48) rest else .error (.past .invalidNumber (c :: rest))

end Number

/-! ## Skipping -/

/-- The text after an exponent, whose `e` was read. -/
def skipExponent (cs : List Char) : Except Fault (List Char) :=
  let cs :=
    match cs with
    | '+' :: cs => cs
    | '-' :: cs => cs
    | cs => cs
  if startsWithDigit cs then .ok (cs.dropWhile Char.isDigit) else .error (.past .invalidNumber cs)

/-- The text after a fraction, whose point was read. -/
def skipFraction (cs : List Char) : Except Fault (List Char) :=
  if startsWithDigit cs then
    match cs.dropWhile Char.isDigit with
    | 'e' :: rest => skipExponent rest
    | 'E' :: rest => skipExponent rest
    | rest => .ok rest
  else .error (.past .invalidNumber cs)

/-- The text after a number, whose minus sign was read if it has one. -/
def skipNumber (cs : List Char) : Except Fault (List Char) := do
  let cs ←
    match cs with
    | '0' :: rest => if startsWithDigit rest then .error (.past .invalidNumber rest) else .ok rest
    | cs => if startsWithDigit cs then .ok (cs.dropWhile Char.isDigit) else .error (.past .invalidNumber cs)
  match cs with
  | '.' :: rest => skipFraction rest
  | 'e' :: rest => skipExponent rest
  | 'E' :: rest => skipExponent rest
  | cs => .ok cs

end ProbeSuite.Json
