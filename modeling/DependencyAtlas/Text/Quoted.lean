import DependencyAtlas.Text.Unprintable

/-!
# Quoted texts

How a text is shown inside a message: between double quotes, with quotes, backslashes and
unprintable characters escaped.
-/

namespace DependencyAtlas.Text

/-- A character by its code point: lower case hexadecimal digits, without leading zeros, in
braces. -/
def codePointEscape (c : Char) : List Char :=
  ['\\', 'u', '\x7b'] ++ Nat.toDigits 16 c.toNat ++ ['\x7d']

def quotedChar (c : Char) : List Char :=
  if c = '"' then ['\\', '"']
  else if c = '\\' then ['\\', '\\']
  else if c = '\n' then ['\\', 'n']
  else if c = '\r' then ['\\', 'r']
  else if c = '\t' then ['\\', 't']
  else if c = '\x00' then ['\\', '0']
  else if isUnprintable c then codePointEscape c
  else [c]

def quoted (s : String) : String :=
  String.ofList ('"' :: s.toList.flatMap quotedChar ++ ['"'])

end DependencyAtlas.Text
