import ProbeSuite.Json.Fault
import ProbeSuite.Json.Value
import ProbeSuite.Sink

/-!
# Printing JSON to a sink

A value is printed on indented lines in many small pieces: one for each mark, each level of an indentation, each number,
and in a string each escape and each run of characters between escapes. The first piece that the sink does not take ends
the printing, with the error of the sink as an error of JSON.

* `Value.pieces` : the pieces of a value, which together are the text of `Value.pretty`;
* `printPieces` : pieces, one after the other;
* `print` : a value.
-/

namespace ProbeSuite.Json

/-- The pieces of what follows in a string after some plain characters. -/
def fragments (plain : List Char) : List Char → List (List Char)
  | [] => if plain.isEmpty then [] else [plain]
  | c :: cs =>
    if escape c = [c] then fragments (plain ++ [c]) cs
    else if plain.isEmpty then escape c :: fragments [] cs
    else plain :: escape c :: fragments [] cs

def quotePieces (s : List Char) : List (List Char) := ['\x22'] :: (fragments [] s ++ [['\x22']])

namespace Value

/-- A line end after `mark`, and the indentation of a level. -/
def newlinePieces (mark : List Char) (level : Nat) : List (List Char) :=
  (mark ++ ['\n']) :: List.replicate level [' ', ' ']

mutual

/-- The pieces of the text on indented lines; the first line stands at the given level. -/
def piecesAt (level : Nat) : Value → List (List Char)
  | .number n => [Nat.toDigits 10 n]
  | .string s => quotePieces s.toList
  | .array [] => [['['], [']']]
  | .array (v :: vs) => ['['] :: (elementPieces (level + 1) [] (v :: vs) ++ (newlinePieces [] level ++ [[']']]))
  | .object [] => [['\x7b'], ['\x7d']]
  | .object (m :: ms) =>
    ['\x7b'] :: (memberPieces (level + 1) [] (m :: ms) ++ (newlinePieces [] level ++ [['\x7d']]))

/-- The elements, each on its own line after `mark`, which is a comma from the second one on. -/
def elementPieces (level : Nat) (mark : List Char) : List Value → List (List Char)
  | [] => []
  | v :: vs => newlinePieces mark level ++ (piecesAt level v ++ elementPieces level [','] vs)

/-- The members, each on its own line after `mark`, which is a comma from the second one on. -/
def memberPieces (level : Nat) (mark : List Char) : List (String × Value) → List (List Char)
  | [] => []
  | (k, v) :: ms =>
    newlinePieces mark level ++
      (quotePieces k.toList ++ [':', ' '] :: (piecesAt level v ++ memberPieces level [','] ms))

end

def pieces (v : Value) : List (List Char) := piecesAt 0 v

end Value

/-- Writes pieces, one after the other, until one is not taken. -/
def printPieces (sink : Sink) : List (List Char) → Delivery → Delivery × Except Error Unit
  | [], d => (d, .ok ())
  | piece :: pieces, d =>
    match sink.write (String.ofList piece) d with
    | (d, .ok ()) => printPieces sink pieces d
    | (d, .error e) => (d, .error (.io e))

def print (sink : Sink) (v : Value) (d : Delivery) : Delivery × Except Error Unit := printPieces sink v.pieces d

/-- The text of a value on indented lines. Memory takes all of it. -/
def toText (v : Value) : Except Error String := .ok (String.ofList v.pretty)

end ProbeSuite.Json
