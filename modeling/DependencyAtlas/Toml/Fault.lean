import DependencyAtlas.Toml.Table

/-!
# Faults of TOML documents

Why a document is refused: the part of the grammar that was being read, what would have been
expected next, and what else was wrong, each of which may be absent.
-/

namespace DependencyAtlas.Toml

open Decoding (backticked)

inductive Construct where
  | key
  | header
  | list
  | inlineTable
  | basicText
  | literalText
  | basicLines
  | literalLines
  | escape
  | codePoint (digits : Nat)
  | word
  | integer
  | hexadecimal
  | octal
  | binary
  | floating
  | date
  | time
  | offset
deriving DecidableEq

def Construct.name : Construct → String
  | key => "key"
  | header => "table header"
  | list => "array"
  | inlineTable => "inline table"
  | basicText => "basic string"
  | literalText => "literal string"
  | basicLines => "multiline basic string"
  | literalLines => "multiline literal string"
  | escape => "escape sequence"
  | codePoint digits => s!"unicode {digits}-digit hex code"
  | word => "string"
  | integer => "integer"
  | hexadecimal => "hexadecimal integer"
  | octal => "octal integer"
  | binary => "binary integer"
  | floating => "floating-point number"
  | date => "date-time"
  | time => "time"
  | offset => "time offset"

inductive Expected where
  | mark (text : String)
  | newline
  | digit
  | leadingDigit
deriving DecidableEq

def Expected.describe : Expected → String
  | mark text => backticked text
  | newline => "newline"
  | digit => "digit"
  | leadingDigit => "leading digit"

/-- What is wrong with something that follows the grammar. -/
inductive Cause where
  | conflict (conflict : Conflict)
  | outOfRange
  | tooLarge
  | tooSmall
  /-- Keys, lists or inline tables nest too deeply. -/
  | tooDeep
  /-- The value does not fit what the key stands for. -/
  | mismatch (cause : Decoding.Mismatch)

def Cause.message : Cause → String
  | conflict c => c.message
  | outOfRange => "value is out of range"
  | tooLarge => "number too large to fit in target type"
  | tooSmall => "number too small to fit in target type"
  | tooDeep => "recursion limit exceeded"
  | mismatch m => m.messageWith Decimal.Style.plain.text

structure Fault where
  construct : Option Construct := none
  expected : List Expected := []
  cause : Option Cause := none

namespace Fault

/-- What was read and what was expected, each on a line of its own, and the cause after them. -/
def message (f : Fault) : String :=
  let invalid := f.construct.toList.map fun c => s!"invalid {c.name}"
  let expected :=
    if f.expected.isEmpty then []
    else ["expected " ++ String.intercalate ", " (f.expected.map Expected.describe)]
  String.intercalate "\n" (invalid ++ expected ++ (f.cause.map Cause.message).toList)

/-- Names the part of the grammar around a fault, unless the fault names one inside of it. -/
def within (c : Construct) (f : Fault) : Fault :=
  { f with construct := f.construct <|> some c }

def expecting (expected : List Expected) (f : Fault) : Fault :=
  { f with expected := f.expected ++ expected }

end Fault

end DependencyAtlas.Toml
