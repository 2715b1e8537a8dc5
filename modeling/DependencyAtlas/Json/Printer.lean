import DependencyAtlas.Decimal.Style
import DependencyAtlas.Json.Value

/-!
# Printing JSON

The indented form: two spaces for each level, one item or field on a line, fields in the order of
the value, and nothing between the brackets of an empty list or object.
-/

namespace DependencyAtlas.Json

def controlEscape (c : Char) : List Char :=
  let digits := Nat.toDigits 16 c.toNat
  ['\\', 'u'] ++ List.replicate (4 - digits.length) '0' ++ digits

def escapedChar (c : Char) : List Char :=
  if c = '"' then ['\\', '"']
  else if c = '\\' then ['\\', '\\']
  else if c = '\x08' then ['\\', 'b']
  else if c = '\x0c' then ['\\', 'f']
  else if c = '\n' then ['\\', 'n']
  else if c = '\r' then ['\\', 'r']
  else if c = '\t' then ['\\', 't']
  else if c.toNat < 0x20 then controlEscape c
  else [c]

def printText (s : String) : String :=
  String.ofList ('"' :: s.toList.flatMap escapedChar ++ ['"'])

/-- A double in shortest digits. JSON has no word for the others. -/
def printFloat (x : Float) : String :=
  if x.isFinite then Decimal.Style.compact.text x else "null"

def lineBreak (level : Nat) : String :=
  String.ofList ('\n' :: List.replicate (2 * level) ' ')

mutual

/-- The text of a value whose first line is already indented. -/
def printAt (level : Nat) : Json → String
  | .null => "null"
  | .bool b => if b then "true" else "false"
  | .int i => toString i
  | .float x => printFloat x
  | .text s => printText s
  | .list [] => "[]"
  | .list (v :: rest) =>
    "[" ++ lineBreak (level + 1) ++ printAt (level + 1) v ++ printItems (level + 1) rest ++
      lineBreak level ++ "]"
  | .object [] => "\x7b\x7d"
  | .object ((k, v) :: rest) =>
    "\x7b" ++ lineBreak (level + 1) ++ printText k ++ ": " ++ printAt (level + 1) v ++
      printFields (level + 1) rest ++ lineBreak level ++ "\x7d"

def printItems (level : Nat) : List Json → String
  | [] => ""
  | v :: rest => "," ++ lineBreak level ++ printAt level v ++ printItems level rest

def printFields (level : Nat) : List (String × Json) → String
  | [] => ""
  | (k, v) :: rest =>
    "," ++ lineBreak level ++ printText k ++ ": " ++ printAt level v ++ printFields level rest

end

def print (v : Json) : String :=
  printAt 0 v

end DependencyAtlas.Json
