import DependencyAtlas.Toml.Fault

/-!
# Errors in TOML documents

A fault, the place of it in the document, and the message that shows the line with the fault
underlined.
-/

namespace DependencyAtlas.Toml

/-- A line of a document with some of its characters marked. Lines and columns count from 0. -/
structure Excerpt where
  line : Nat
  column : Nat
  text : String
  /-- How many characters to mark. -/
  width : Nat

namespace Excerpt

def byteLength (cs : List Char) : Nat :=
  (String.ofList cs).utf8ByteSize

/-- The line of a document in which a range of characters starts. The end of the document belongs
to the line of its last character. The column counts characters, or bytes in front of a character
that is not ASCII; the marks are as many as the range has bytes, up to the end of the line. -/
def of (document : List Char) (span : Span) : Excerpt :=
  let anchor := min span.start (document.length - 1)
  let before := document.take anchor
  let indent := (before.reverse.takeWhile fun c => c != '\n').reverse
  let text := (document.drop (anchor - indent.length)).takeWhile fun c => c != '\n'
  let wide := (document[span.start]?).any fun c => 0x80 ≤ c.toNat
  let column := (if wide then byteLength indent else indent.length) + (span.start - anchor)
  let range := (document.drop span.start).take (span.stop - span.start)
  { line := before.count '\n'
    column := column
    text := String.ofList text
    width := max 1 (min (byteLength range) (byteLength text - column)) }

def render (e : Excerpt) : List String :=
  let number := toString (e.line + 1)
  let gutter := String.ofList (List.replicate (number.length + 1) ' ') ++ "|"
  let indent := String.ofList (List.replicate (e.column + 1) ' ')
  let marks := String.ofList (List.replicate e.width '^')
  [gutter, s!"{number} | {e.text}", gutter ++ indent ++ marks]

end Excerpt

structure Error where
  fault : Fault
  excerpt : Excerpt

def Error.message (e : Error) : String :=
  let heading :=
    s!"TOML parse error at line {e.excerpt.line + 1}, column {e.excerpt.column + 1}"
  String.join ((heading :: e.excerpt.render ++ [e.fault.message]).map fun line => line ++ "\n")

end DependencyAtlas.Toml
