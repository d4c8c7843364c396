import ProbeSuite.Text.Characters
import ProbeSuite.Toml.Node

/-!
# Excerpts

An excerpt shows the line of a text that holds a value, with carets under the value.

* `Excerpt.ofSpan` : the excerpt for a span;
* `Excerpt.text` : its lines, the first of which names the place.
-/

namespace ProbeSuite.Toml

/-- A line of a text, its number and the column of a value in it, both from 0, and the number of carets. -/
structure Excerpt where
  line : Nat
  column : Nat
  content : List Char
  width : Nat
  deriving DecidableEq

namespace Excerpt

/-- The excerpt for a span of a text. There is a caret for each byte of the value, up to the end of the line
and at least one. -/
def ofSpan (text : List Char) (span : Span) : Excerpt :=
  let before := text.take (text.length - span.start.length)
  let lineStart := (before.reverse.takeWhile (· ≠ '\n')).reverse
  let content := lineStart ++ span.start.takeWhile (· ≠ '\n')
  let bytes := Text.byteLength (span.start.take (span.start.length - span.stop.length))
  ⟨before.count '\n', lineStart.length, content, max 1 (min bytes (Text.byteLength content - lineStart.length))⟩

/-- The place, an empty gutter, the line behind its number, and the carets. -/
def text (e : Excerpt) : String :=
  let number := toString (e.line + 1)
  let gutter := String.ofList (List.replicate (number.length + 1) ' ') ++ "|"
  let carets := String.ofList (List.replicate (e.column + 1) ' ' ++ List.replicate e.width '^')
  s!"TOML parse error at line {number}, column {e.column + 1}\n" ++
    s!"{gutter}\n{number} | {String.ofList e.content}\n{gutter}{carets}\n"

end Excerpt

end ProbeSuite.Toml
