/-!
# Paths

A path is a text of names with slashes between them. One that starts with a slash starts at the root, any
other at the current directory. Slashes may stand together and at the end.

* `Path.names` : the names in order;
* `Path.parent?` : the path without its last name;
* `Path.join` : a path with one more name.
-/

namespace ProbeSuite

abbrev Path := List Char

abbrev Name := List Char

namespace Path

def isAbsolute (p : Path) : Bool := p.head? = some '/'

/-- Whether a path ends with a slash, and so stands for a directory. -/
def isSlashed (p : Path) : Bool := p.getLast? = some '/'

/-- The names of a path; `name` is the one being read. -/
def namesFrom (name : Name) : Path → List Name
  | [] => if name.isEmpty then [] else [name]
  | c :: cs =>
    if c = '/' then if name.isEmpty then namesFrom [] cs else name :: namesFrom [] cs
    else namesFrom (name ++ [c]) cs

def names (p : Path) : List Name := namesFrom [] p

/-- A path, back to front, without slashes and single dots at its end. The root keeps its slash. -/
def trimEnd : List Char → List Char
  | [] => []
  | ['/'] => ['/']
  | '/' :: rest => trimEnd rest
  | ['.', '/'] => ['/']
  | '.' :: '/' :: rest => trimEnd rest
  | cs => cs

/-- The path without its last name. The root and the empty path have none. -/
def parent? (p : Path) : Option Path :=
  match trimEnd p.reverse with
  | [] => none
  | ['/'] => none
  | cs => some (trimEnd (cs.dropWhile (· ≠ '/'))).reverse

def join (p : Path) (name : Name) : Path := if p.isEmpty ∨ p.isSlashed then p ++ name else p ++ '/' :: name

def text (p : Path) : String := String.ofList p

end Path

end ProbeSuite
