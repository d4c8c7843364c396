import ProbeSuite.Timestamp
import ProbeSuite.Text.Blank

/-!
# Reading timestamps

A timestamp is read leniently: `T`, `t` or one space between date and time, numbers without their leading
zeros, blanks before every number and around the separators, a signed year of any length, second 60, and a
fraction of any length, of which nine digits count. The offset is `Z`, `UTC` in any case, or a sign with two
digits of hours and two of minutes; the result is in universal time.

* `Timestamp.Fault` : why a text is no timestamp;
* `Timestamp.read` : the timestamp of a text.
-/

namespace ProbeSuite.Timestamp

/-- Why a text is no timestamp. -/
inductive Fault where
  /-- The text ends too early. -/
  | tooShort
  /-- A character does not belong where it stands. -/
  | invalid
  /-- A number is outside its range, or the date does not exist. -/
  | outOfRange
  /-- Something follows the offset. -/
  | tooLong
  /-- The offset leads out of the years there are. -/
  | impossible
  deriving DecidableEq

def Fault.message : Fault → String
  | .tooShort => "premature end of input"
  | .invalid => "input contains invalid characters"
  | .outOfRange => "input is out of range"
  | .tooLong => "trailing input"
  | .impossible => "no possible date and time matching input"

open Text (trimStart)

/-- The longest run of digits at the start, of at most `width` if there is a width, and the rest. -/
def splitDigits : (width : Option Nat) → List Char → List Char × List Char
  | some 0, cs => ([], cs)
  | _, [] => ([], [])
  | width, c :: cs =>
    if c.isDigit then
      let (ds, rest) := splitDigits (width.map (· - 1)) cs
      (c :: ds, rest)
    else ([], c :: cs)

/-- A number without a sign. -/
def number (width : Option Nat) (cs : List Char) : Except Fault (Nat × List Char) :=
  match splitDigits width cs with
  | ([], []) => .error .tooShort
  | ([], _) => .error .invalid
  | (ds, rest) => .ok (Nat.ofDigitChars 10 ds 0, rest)

/-- A number of at most two digits from `least` to `most`, after blanks. -/
def field (least most : Nat) (cs : List Char) : Except Fault (Nat × List Char) := do
  let (n, rest) ← number (some 2) (trimStart cs)
  if least ≤ n ∧ n ≤ most then .ok (n, rest) else .error .outOfRange

/-- A year of any size, after blanks: at most four digits, or a sign and any number of them. -/
def signedYear (cs : List Char) : Except Fault (Int × List Char) :=
  match trimStart cs with
  | '-' :: cs => do
    let (n, rest) ← number none cs
    .ok (-(n : Int), rest)
  | '+' :: cs => do
    let (n, rest) ← number none cs
    .ok ((n : Int), rest)
  | cs => do
    let (n, rest) ← number (some 4) cs
    .ok ((n : Int), rest)

/-- A year that fits 32 bits. -/
def year (cs : List Char) : Except Fault (Int × List Char) := do
  let (y, rest) ← signedYear cs
  if -2 ^ 31 ≤ y ∧ y < 2 ^ 31 then .ok (y, rest) else .error .outOfRange

/-- The separator `c`, after blanks. -/
def separator (c : Char) (cs : List Char) : Except Fault (List Char) :=
  match trimStart cs with
  | [] => .error .tooShort
  | d :: rest => if d = c then .ok rest else .error .invalid

/-- A point and the digits after it, as nanoseconds. -/
def nanosecond (cs : List Char) : Except Fault (Nat × List Char) :=
  match cs with
  | '.' :: cs => do
    let (ds, rest) := splitDigits (some 9) cs
    let (n, _) ← number (some 9) cs
    .ok (n * 10 ^ (9 - ds.length), rest.dropWhile Char.isDigit)
  | cs => .ok (0, cs)

/-- The first two characters as digits. A text of one byte is too short for them. -/
def twoDigits (cs : List Char) : Except Fault (Nat × Nat × List Char) :=
  match cs with
  | [] => .error .tooShort
  | [c] => if c.utf8Size = 1 then .error .tooShort else .error .invalid
  | a :: b :: rest =>
    if a.isDigit && b.isDigit then .ok (a.toNat - 48, b.toNat - 48, rest) else .error .invalid

/-- A sign, hours, colons or blanks, and minutes; the offset in seconds. -/
def signedOffset (cs : List Char) : Except Fault (Int × List Char) := do
  let (sign, cs) ←
    match cs with
    | [] => .error .tooShort
    | '+' :: cs => pure ((1 : Int), cs)
    | '-' :: cs => pure (-1, cs)
    | '−' :: cs => pure (-1, cs)
    | _ => .error .invalid
  let (h₁, h₂, cs) ← twoDigits cs
  let (m₁, m₂, cs) ← twoDigits (cs.dropWhile fun c => c = ':' || Text.isBlank c)
  if 6 ≤ m₁ then .error .outOfRange
  else .ok (sign * (((h₁ * 10 + h₂) * 60 + (m₁ * 10 + m₂)) * 60 : Nat), cs)

/-- The offset from universal time, in seconds. -/
def offset (cs : List Char) : Except Fault (Int × List Char) :=
  match trimStart cs with
  | 'Z' :: rest => .ok (0, rest)
  | 'z' :: rest => .ok (0, rest)
  | a :: b :: c :: rest =>
    if a.toUpper = 'U' ∧ b.toUpper = 'T' ∧ c.toUpper = 'C' then .ok (0, rest) else signedOffset (a :: b :: c :: rest)
  | cs => signedOffset cs

/-- The seconds of the local clock, before the offset is taken off. -/
def localSeconds (d : Date) (hour minute second : Nat) : Int :=
  d.toDays * 86400 + ((hour * 60 + minute) * 60 + second : Nat)

/-- The timestamp of local clock readings, all within their own ranges. Second 60 is the end of second 59. -/
def assemble (d : Date) (hour minute second nanos : Nat) (offset : Int) : Except Fault Timestamp :=
  let (second, nanos) := if second = 60 then (59, nanos + 1000000000) else (second, nanos)
  let seconds := localSeconds d hour minute second
  if ¬d.isValid ∨ seconds < firstSecond ∨ lastSecond < seconds ∨ offset ≤ -86400 ∨ 86400 ≤ offset then
    .error .outOfRange
  else
    match ofParts? (seconds - offset) nanos with
    | some t => .ok t
    | none => .error .impossible

def read (cs : List Char) : Except Fault Timestamp := do
  let (y, cs) ← year cs
  let cs ← separator '-' cs
  let (month, cs) ← field 1 12 cs
  let cs ← separator '-' cs
  let (day, cs) ← field 1 31 cs
  let cs ←
    match cs with
    | [] => .error .tooShort
    | c :: rest => if c = 'T' ∨ c = 't' ∨ c = ' ' then pure rest else .error .invalid
  let (hour, cs) ← field 0 23 cs
  let cs ← separator ':' cs
  let (minute, cs) ← field 0 59 cs
  let cs ← separator ':' cs
  let (second, cs) ← field 0 60 cs
  let (nanos, cs) ← nanosecond cs
  let (offset, cs) ← offset cs
  if (trimStart cs).isEmpty then assemble ⟨y, month, day⟩ hour minute second nanos offset else .error .tooLong

end ProbeSuite.Timestamp
