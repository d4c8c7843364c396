import ProbeSuite.Text.Concealed

/-!
# Quoted texts

A quotation stands between double quotes. Inside it a backslash precedes a double quote and a backslash,
`\0`, `\t`, `\r` and `\n` name their characters, and what would not be visible is written as `\u` with the
hexadecimal code point in braces. A path is quoted like any text, except that its apostrophes take a
backslash too.
-/

namespace ProbeSuite.Text

/-- How a character stands in a quotation. -/
def escape (c : Char) : List Char :=
  match c with
  | '\x00' => ['\\', '0']
  | '\t' => ['\\', 't']
  | '\r' => ['\\', 'r']
  | '\n' => ['\\', 'n']
  | '\\' => ['\\', '\\']
  | '"' => ['\\', '"']
  | c => if isConcealed c then ['\\', 'u', '\x7b'] ++ Nat.toDigits 16 c.toNat ++ ['\x7d'] else [c]

/-- How a character stands in a quoted path. -/
def escapeInPath (c : Char) : List Char := if c = '\x27' then ['\\', '\x27'] else escape c

def quoted (s : String) : String := String.ofList ('"' :: s.toList.flatMap escape ++ ['"'])

def quotedPath (s : String) : String := String.ofList ('"' :: s.toList.flatMap escapeInPath ++ ['"'])

end ProbeSuite.Text
