import ProbeSuite.Json.Fault
import ProbeSuite.Text.Characters

/-!
# Strings in JSON

A string stands between double quotes. In it a backslash starts an escape: one of eight characters, or `u`
and four hexadecimal digits, which name a UTF-16 unit. Two units that form a surrogate pair name one
character together; a surrogate alone names none.

* `hexUnit` : four hexadecimal digits;
* `unescape` : the character of an escape;
* `stringBody` : the characters up to the closing quote;
* `skipString` : the same text without decoding it, which admits any surrogate;
* `quote` : the text that `stringBody` reads back.
-/

namespace ProbeSuite.Json

open Text (byteLength hexDigit?)

/-- Four hexadecimal digits. They are taken as four bytes, so a text that ends within them has ended, and
any other character is a bad escape. -/
def hexUnit (cs : List Char) : Except Fault (Nat × List Char) :=
  match cs with
  | a :: b :: c :: d :: rest =>
    match hexDigit? a, hexDigit? b, hexDigit? c, hexDigit? d with
    | some a, some b, some c, some d => .ok (((a * 16 + b) * 16 + c) * 16 + d, rest)
    | _, _, _, _ => .error ⟨.invalidEscape, cs, 4⟩
  | _ => if 4 ≤ byteLength cs then .error ⟨.invalidEscape, cs, 4⟩ else .error (.at .eofString [])

/-- The second half of a surrogate pair, after the unit `high`. -/
def lowSurrogate (high : Nat) (cs : List Char) : Except Fault (Char × List Char) :=
  match cs with
  | [] => .error (.at .eofString [])
  | '\\' :: [] => .error (.at .eofString [])
  | '\\' :: 'u' :: rest => do
    let (low, rest) ← hexUnit rest
    if 0xDC00 ≤ low ∧ low ≤ 0xDFFF then
      .ok (Char.ofNat (0x10000 + (high - 0xD800) * 0x400 + (low - 0xDC00)), rest)
    else .error (.at .loneSurrogate rest)
  | '\\' :: rest => .error (.past .unpairedSurrogate rest)
  | cs => .error (.past .unpairedSurrogate cs)

/-- The character of an escape, after its backslash. -/
def unescape (cs : List Char) : Except Fault (Char × List Char) :=
  match cs with
  | [] => .error (.at .eofString [])
  | 'u' :: rest => do
    let (unit, rest) ← hexUnit rest
    if 0xDC00 ≤ unit ∧ unit ≤ 0xDFFF then .error (.at .loneSurrogate rest)
    else if 0xD800 ≤ unit ∧ unit ≤ 0xDBFF then lowSurrogate unit rest
    else .ok (Char.ofNat unit, rest)
  | '\x22' :: rest => .ok ('\x22', rest)
  | '\\' :: rest => .ok ('\\', rest)
  | '/' :: rest => .ok ('/', rest)
  | 'b' :: rest => .ok ('\x08', rest)
  | 'f' :: rest => .ok ('\x0c', rest)
  | 'n' :: rest => .ok ('\n', rest)
  | 'r' :: rest => .ok ('\r', rest)
  | 't' :: rest => .ok ('\t', rest)
  | cs => .error (.past .invalidEscape cs)

/-- The characters up to the closing quote, and what follows it. The first list only bounds the recursion:
every step reads a character, so the text itself is long enough. -/
def stringBodyFrom : List Char → List Char → Except Fault (List Char × List Char)
  | _, [] => .error (.at .eofString [])
  | [], cs => .error (.at .eofString cs)
  | _ :: bound, c :: rest =>
    if c = '\x22' then .ok ([], rest)
    else if c = '\\' then do
      let (d, rest) ← unescape rest
      let (ds, rest) ← stringBodyFrom bound rest
      .ok (d :: ds, rest)
    else if c.toNat < 0x20 then .error (.past .controlCharacter (c :: rest))
    else do
      let (ds, rest) ← stringBodyFrom bound rest
      .ok (c :: ds, rest)

def stringBody (cs : List Char) : Except Fault (List Char × List Char) := stringBodyFrom cs cs

/-- The text after an opening quote, without the string; see `stringBodyFrom` for the first list. -/
def skipStringFrom : List Char → List Char → Except Fault (List Char)
  | _, [] => .error (.at .eofString [])
  | [], cs => .error (.at .eofString cs)
  | _ :: bound, c :: rest =>
    if c = '\x22' then .ok rest
    else if c = '\\' then
      match rest with
      | [] => .error (.at .eofString [])
      | 'u' :: rest => do
        let (_, rest) ← hexUnit rest
        skipStringFrom bound rest
      | e :: rest =>
        if e ∈ ['\x22', '\\', '/', 'b', 'f', 'n', 'r', 't'] then skipStringFrom bound rest
        else .error (.past .invalidEscape (e :: rest))
    else if c.toNat < 0x20 then .error (.at .controlCharacter (c :: rest))
    else skipStringFrom bound rest

def skipString (cs : List Char) : Except Fault (List Char) := skipStringFrom cs cs

/-! ## Writing -/

/-- A digit below sixteen, in lower case. -/
def hexChar (n : Nat) : Char := Char.ofNat (if n < 10 then n + 48 else n + 87)

/-- How a character is written: only quotes, backslashes and controls are escaped. -/
def escape (c : Char) : List Char :=
  if c = '\x22' then ['\\', '\x22']
  else if c = '\\' then ['\\', '\\']
  else if c = '\x08' then ['\\', 'b']
  else if c = '\x0c' then ['\\', 'f']
  else if c = '\n' then ['\\', 'n']
  else if c = '\r' then ['\\', 'r']
  else if c = '\t' then ['\\', 't']
  else if c.toNat < 0x20 then ['\\', 'u', '0', '0', hexChar (c.toNat / 16), hexChar (c.toNat % 16)]
  else [c]

def quote (s : List Char) : List Char := '\x22' :: (s.flatMap escape ++ ['\x22'])

end ProbeSuite.Json
