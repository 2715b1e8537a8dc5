/-!
# Keys of TOML

The names under which a document sets values, and how a name is written in the shortest way that a
document could have it.
-/

namespace DependencyAtlas.Toml

structure Span where
  start : Nat
  stop : Nat
deriving DecidableEq

structure Key where
  name : String
  span : Span

def isKeyChar (c : Char) : Bool :=
  c.isAlphanum || c == '_' || c == '-'

/-- The characters that no string has as they are. -/
def isControlChar (c : Char) : Bool :=
  (c.toNat < 0x20 && c != '\t') || c.toNat == 0x7F

def fourDigits (n : Nat) : List Char :=
  let digits := (Nat.toDigits 16 n).map Char.toUpper
  List.replicate (4 - digits.length) '0' ++ digits

def escapeChar (c : Char) : List Char :=
  match c with
  | '\x08' => ['\\', 'b']
  | '\t' => ['\\', 't']
  | '\n' => ['\\', 'n']
  | '\x0c' => ['\\', 'f']
  | '\r' => ['\\', 'r']
  | '"' => ['\\', '"']
  | '\\' => ['\\', '\\']
  | c => if isControlChar c then '\\' :: 'u' :: fourDigits c.toNat else [c]

/-- How a name is written as a key: without quotes if that can be, else in double quotes if nothing
but tabs need an escape there, else in single quotes if they can hold it, else with escapes. -/
def writtenKey (name : String) : String :=
  let cs := name.toList
  let basic := '"' :: cs.flatMap escapeChar ++ ['"']
  String.ofList <|
    if !cs.isEmpty && cs.all isKeyChar then cs
    else if cs.any isControlChar then basic
    else if !cs.contains '\\' && !cs.contains '"' then basic
    else if !cs.contains '\'' then '\'' :: cs ++ ['\'']
    else basic

end DependencyAtlas.Toml
