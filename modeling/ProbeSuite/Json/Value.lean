import ProbeSuite.Json.Text

/-!
# JSON values and their two layouts

A value is written compactly, without any blank, or on indented lines, where every element and every member
has its own line and two spaces go in front per level. Empty lists and objects are one token in both.

* `Value.compact`, `Value.pretty` : the two texts.
-/

namespace ProbeSuite.Json

/-- A value of a report: numbers are natural ones. -/
inductive Value where
  | number (n : Nat)
  | string (s : String)
  | array (elements : List Value)
  | object (members : List (String × Value))

namespace Value

def keyText (key : String) : List Char := quote key.toList ++ [':']

mutual

/-- The text without blanks. -/
def compact : Value → List Char
  | .number n => Nat.toDigits 10 n
  | .string s => quote s.toList
  | .array vs => '[' :: (compactElements vs ++ [']'])
  | .object ms => '\x7b' :: (compactMembers ms ++ ['\x7d'])

def compactElements : List Value → List Char
  | [] => []
  | [v] => compact v
  | v :: vs => compact v ++ ',' :: compactElements vs

def compactMembers : List (String × Value) → List Char
  | [] => []
  | [(k, v)] => keyText k ++ compact v
  | (k, v) :: ms => keyText k ++ (compact v ++ ',' :: compactMembers ms)

end

/-- A line end and the indentation of a level. -/
def newline (level : Nat) : List Char := '\n' :: List.replicate (2 * level) ' '

mutual

/-- The text on indented lines; the first line stands at the given level. -/
def prettyAt (level : Nat) : Value → List Char
  | .number n => Nat.toDigits 10 n
  | .string s => quote s.toList
  | .array [] => ['[', ']']
  | .array (v :: vs) => '[' :: (prettyElements (level + 1) (v :: vs) ++ (newline level ++ [']']))
  | .object [] => ['\x7b', '\x7d']
  | .object (m :: ms) => '\x7b' :: (prettyMembers (level + 1) (m :: ms) ++ (newline level ++ ['\x7d']))

/-- The elements, each on its own line, with commas at the line ends. -/
def prettyElements (level : Nat) : List Value → List Char
  | [] => []
  | [v] => newline level ++ prettyAt level v
  | v :: vs => newline level ++ (prettyAt level v ++ ',' :: prettyElements level vs)

/-- The members, each on its own line, with commas at the line ends. -/
def prettyMembers (level : Nat) : List (String × Value) → List Char
  | [] => []
  | [(k, v)] => newline level ++ (keyText k ++ ' ' :: prettyAt level v)
  | (k, v) :: ms =>
    newline level ++ (keyText k ++ ' ' :: (prettyAt level v ++ ',' :: prettyMembers level ms))

end

def pretty (v : Value) : List Char := prettyAt 0 v

end Value

end ProbeSuite.Json
