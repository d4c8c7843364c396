import ProbeSuite.Calendar
import ProbeSuite.Toml.Node

/-!
# Numbers and dates in TOML

Integers are decimal with a sign, or hexadecimal, octal or binary without one, and fit 64 bits. A number with
a fraction or an exponent is binary64; `inf` and `nan` are too. Single underscores may stand between digits.
Dates and times must exist, but their values are not kept.

* `integer`, `real` : the readers of numbers; `monthDay`, `clock`, `zone` : those of the parts of a date or time;
* `number` : any value that starts with a digit or a sign.
-/

namespace ProbeSuite.Toml

/-! ## Digits -/

/-- Digits with single underscores between them, after a first digit. -/
def moreDigits (isDigit : Char → Bool) : List Char → Option (List Char × List Char)
  | [] => some ([], [])
  | ['_'] => none
  | '_' :: c :: rest =>
    if isDigit c then do
      let (ds, rest) ← moreDigits isDigit rest
      some (c :: ds, rest)
    else none
  | c :: rest =>
    if isDigit c then do
      let (ds, rest) ← moreDigits isDigit rest
      some (c :: ds, rest)
    else some ([], c :: rest)

/-- At least one digit, with single underscores between digits. -/
def digits (isDigit : Char → Bool) : List Char → Option (List Char × List Char)
  | [] => none
  | c :: rest =>
    if isDigit c then do
      let (ds, rest) ← moreDigits isDigit rest
      some (c :: ds, rest)
    else none

def digitValue (c : Char) : Nat :=
  if c ≤ '9' then c.toNat - 48 else if c ≤ 'F' then c.toNat - 55 else c.toNat - 87

def ofDigits (base : Nat) (ds : List Char) : Nat := ds.foldl (fun n c => n * base + digitValue c) 0

/-- Whether a character is a digit of a base up to sixteen. -/
def isDigitOf (base : Nat) (c : Char) : Bool :=
  (c.isDigit || ('a' ≤ c && c ≤ 'f') || ('A' ≤ c && c ≤ 'F')) && digitValue c < base

/-- The decimal digits of an integer; a zero stands alone. -/
def decimalDigits (cs : List Char) : Option (List Char × List Char) :=
  match cs with
  | '0' :: rest => some (['0'], rest)
  | cs => digits Char.isDigit cs

/-- A sign, if there is one: whether it is a minus, and the text after it. -/
def sign : List Char → Bool × List Char
  | '+' :: rest => (false, rest)
  | '-' :: rest => (true, rest)
  | cs => (false, cs)

/-! ## Integers -/

/-- The integer, if it fits 64 bits. -/
def word? (n : Int) : Option Int := if -2 ^ 63 ≤ n ∧ n < 2 ^ 63 then some n else none

/-- An integer with digits of a base, after the letter of the base. -/
def basedInteger (base : Nat) (cs : List Char) : Option (Scalar × List Char) := do
  let (ds, rest) ← digits (isDigitOf base) cs
  some (.integer (← word? (ofDigits base ds)), rest)

/-- A decimal integer with its sign. -/
def decimalInteger (cs : List Char) : Option (Scalar × List Char) := do
  let (minus, cs) := sign cs
  let (ds, rest) ← decimalDigits cs
  let n := ofDigits 10 ds
  some (.integer (← word? (if minus then -n else n)), rest)

def integer (cs : List Char) : Option (Scalar × List Char) :=
  match cs with
  | '0' :: 'x' :: rest => basedInteger 16 rest
  | '0' :: 'o' :: rest => basedInteger 8 rest
  | '0' :: 'b' :: rest => basedInteger 2 rest
  | cs => decimalInteger cs

/-! ## Floating point numbers -/

/-- The digits after a point, if there is one. -/
def fraction : List Char → Option (List Char × List Char)
  | '.' :: rest => digits Char.isDigit rest
  | cs => some ([], cs)

/-- The exponent, if there is one. -/
def exponent (cs : List Char) : Option (Int × List Char) :=
  match cs with
  | 'e' :: rest => signed rest
  | 'E' :: rest => signed rest
  | cs => some (0, cs)
where
  /-- Digits with a sign. -/
  signed (cs : List Char) : Option (Int × List Char) := do
    let (minus, cs) := sign cs
    let (ds, rest) ← digits Char.isDigit cs
    some (if minus then -ofDigits 10 ds else ofDigits 10 ds, rest)

/-- The number `coefficient * 10 ^ e`, where the coefficient has `length` digits. What is too large for
binary64 is infinite, and that is not written in digits without a minus sign. -/
def rounded (minus : Bool) (coefficient length : Nat) (e : Int) : Option Real :=
  if coefficient = 0 ∨ length + e < -400 then some (.finite minus .zero)
  else
    let x :=
      if 400 < length + e then none
      else
        let x := Binary64.ofRatio (coefficient * 10 ^ e.toNat) (10 ^ (-e).toNat)
        if x.isFinite then some x else none
    match x with
    | some x => some (.finite minus x)
    | none => if minus then some (.infinite true) else none

/-- A name of a number without digits. -/
def special (minus : Bool) : List Char → Option (Scalar × List Char)
  | 'i' :: 'n' :: 'f' :: rest => some (.float (.infinite minus), rest)
  | 'n' :: 'a' :: 'n' :: rest => some (.float .nan, rest)
  | _ => none

/-- An integer, or a number with a fraction, an exponent or both. -/
def real (cs : List Char) : Option (Scalar × List Char) := do
  let (minus, unsigned) := sign cs
  let (whole, afterWhole) ← decimalDigits unsigned
  let (part, rest) ← fraction afterWhole
  let (e, rest) ← exponent rest
  if rest.length = afterWhole.length then integer cs
  else
    let ds := whole ++ part
    let length := (ds.dropWhile (· = '0')).length
    some (.float (← rounded minus (ofDigits 10 ds) length (e - part.length)), rest)

/-! ## Dates and times -/

/-- The number in two digits, if it is in a range. -/
def twoDigits (least most : Nat) : List Char → Option (Nat × List Char)
  | a :: b :: rest =>
    let n := (a.toNat - 48) * 10 + (b.toNat - 48)
    if a.isDigit ∧ b.isDigit ∧ least ≤ n ∧ n ≤ most then some (n, rest) else none
  | _ => none

/-- The text after a character. -/
def expect (c : Char) : List Char → Option (List Char)
  | d :: rest => if d = c then some rest else none
  | [] => none

/-- Minutes, seconds and a fraction, after the hour and its colon. -/
def clockTail (cs : List Char) : Option (List Char) := do
  let (_, cs) ← twoDigits 0 59 cs
  let cs ← expect ':' cs
  let (_, cs) ← twoDigits 0 60 cs
  match cs with
  | '.' :: rest => if (rest.takeWhile Char.isDigit).isEmpty then none else some (rest.dropWhile Char.isDigit)
  | cs => some cs

def clock (cs : List Char) : Option (List Char) := do
  let (_, cs) ← twoDigits 0 23 cs
  clockTail (← expect ':' cs)

/-- An offset from universal time, if there is one. -/
def zone (cs : List Char) : Option (List Char) :=
  match cs with
  | 'Z' :: rest => some rest
  | 'z' :: rest => some rest
  | '+' :: rest => hours rest
  | '-' :: rest => hours rest
  | cs => some cs
where
  /-- Hours and minutes. -/
  hours (cs : List Char) : Option (List Char) := do
    let (_, cs) ← twoDigits 0 23 cs
    let cs ← expect ':' cs
    let (_, cs) ← twoDigits 0 59 cs
    some cs

/-- Month and day, after the year and its hyphen. -/
def monthDay (year : Nat) (cs : List Char) : Option (List Char) := do
  let (month, cs) ← twoDigits 1 12 cs
  let cs ← expect '-' cs
  let (day, cs) ← twoDigits 1 31 cs
  if Date.isValid ⟨year, month, day⟩ then some cs else none

/-- Whether a text starts as a date does: four digits and a hyphen. -/
def startsDate : List Char → Bool
  | a :: b :: c :: d :: '-' :: _ => a.isDigit && b.isDigit && c.isDigit && d.isDigit
  | _ => false

/-- Whether a text starts as a time does: two digits and a colon. -/
def startsTime : List Char → Bool
  | a :: b :: ':' :: _ => a.isDigit && b.isDigit
  | _ => false

/-- A time and an offset after a date. A space is no separator unless a time follows it. -/
def timeAfterDate (cs : List Char) : Option (List Char) :=
  match cs with
  | 'T' :: rest => do zone (← clock rest)
  | 't' :: rest => do zone (← clock rest)
  | ' ' :: rest => if startsTime rest then do zone (← clock rest) else some cs
  | cs => some cs

/-- A value that starts with a digit or a sign. -/
def number (cs : List Char) : Option (Scalar × List Char) :=
  if startsDate cs then do
    let rest ← timeAfterDate (← monthDay (ofDigits 10 (cs.take 4)) (cs.drop 5))
    some (.datetime, rest)
  else if startsTime cs then do
    let rest ← clock cs
    some (.datetime, rest)
  else
    match special (sign cs).1 (sign cs).2 with
    | some result => some result
    | none =>
      match cs with
      | '0' :: 'x' :: _ => integer cs
      | '0' :: 'o' :: _ => integer cs
      | '0' :: 'b' :: _ => integer cs
      | cs => real cs

end ProbeSuite.Toml
