import DependencyAtlas.Toml.Digits
import DependencyAtlas.Toml.Reader

/-!
# Strings of TOML

The four kinds of quoted text: basic and literal, on one line or on several. A reader starts behind
the opening quotes and yields the text and what follows the closing quotes.
-/

namespace DependencyAtlas.Toml

open Reader

/-- The characters that stand for themselves in strings and comments: the tab and all that are no
ASCII control characters. -/
def isPlainChar (c : Char) : Bool :=
  c == '\t' || (0x20 ≤ c.toNat && c.toNat != 0x7F)

def isSpace (c : Char) : Bool :=
  c == ' ' || c == '\t'

/-- A line feed, with or without a carriage return before it. -/
def newline? : List Char → Option (List Char)
  | '\n' :: cs => some cs
  | '\r' :: '\n' :: cs => some cs
  | _ => none

def codePoint? (count : Nat) (cs : List Char) : Option Char :=
  let digits := cs.take count
  let n := numberOfDigits 16 digits
  if digits.length = count ∧ digits.all (isDigitOf 16) ∧ n.isValidChar then some (Char.ofNat n)
  else none

/-- The character behind a backslash and how many characters it takes to say it. -/
def escape? : List Char → Option (Char × Nat)
  | 'b' :: _ => some ('\x08', 1)
  | 't' :: _ => some ('\t', 1)
  | 'n' :: _ => some ('\n', 1)
  | 'f' :: _ => some ('\x0c', 1)
  | 'r' :: _ => some ('\r', 1)
  | '"' :: _ => some ('"', 1)
  | '\\' :: _ => some ('\\', 1)
  | 'u' :: cs => (codePoint? 4 cs).map fun c => (c, 5)
  | 'U' :: cs => (codePoint? 8 cs).map fun c => (c, 9)
  | _ => none

def codePointFault (count : Nat) (cs : List Char) : Fault :=
  let digits := cs.take count
  let isNumber : Bool := digits.length = count ∧ digits.all (isDigitOf 16)
  { construct := some (.codePoint count), cause := if isNumber then some .outOfRange else none }

def brokenText (c : Construct) : Reader (List Char) :=
  firmly (stop { construct := some c })

/-- The characters behind a backslash are no escape. Behind the last character of all, it is the
text around that cannot go on. -/
def brokenEscape (text : Construct) (cs : List Char) : Except Stop (List Char × List Char) :=
  match cs with
  | [] => brokenText text ['\\']
  | 'u' :: cs => firmly (stop (codePointFault 4 cs)) cs
  | 'U' :: cs => firmly (stop (codePointFault 8 cs)) cs
  | c :: rest =>
    let known := ["b", "f", "n", "r", "t", "u", "U", "\\", "\""]
    firmly (stop { construct := some .escape, expected := known.map Expected.mark })
      (if c.toNat < 0x80 then rest else cs)

def blankLength : List Char → Nat
  | '\r' :: '\n' :: cs => blankLength cs + 2
  | c :: cs => if isSpace c || c == '\n' then blankLength cs + 1 else 0
  | [] => 0

/-- The length of a break behind a backslash: blanks of which at least one is a line end, with only
spaces before it. -/
def lineBreak? (cs : List Char) : Option Nat :=
  (newline? (cs.dropWhile isSpace)).map fun _ => blankLength cs

def basicBody : List Char → Except Stop (List Char × List Char)
  | [] => brokenText .basicText []
  | '"' :: cs => .ok ([], cs)
  | '\\' :: cs =>
    match escape? cs with
    | some (c, n) => prepend c (basicBody (cs.drop n))
    | none => brokenEscape .basicText cs
  | c :: cs =>
    if isPlainChar c then prepend c (basicBody cs)
    else brokenText .basicText (c :: cs)
termination_by cs => cs.length

def literalBody : List Char → Except Stop (List Char × List Char)
  | [] => brokenText .literalText []
  | '\'' :: cs => .ok ([], cs)
  | c :: cs =>
    if isPlainChar c then prepend c (literalBody cs)
    else brokenText .literalText (c :: cs)

/-- The end of a string on several lines, behind the first of its quotes: two more quotes close it,
and up to two in front of them belong to the text. -/
def closing? (quote : Char) (cs : List Char) : Option (List Char × List Char) :=
  let further := (cs.takeWhile fun c => c == quote).length
  if 2 ≤ further then some (List.replicate (min further 4 - 2) quote, cs.drop (min further 4))
  else none

def behindQuotes (quote : Char) (cs : List Char) : List Char :=
  cs.dropWhile fun c => c == quote

def startsLiteral (cs : List Char) : Bool :=
  (newline? cs).isSome || cs.head?.any isPlainChar

def basicLines : List Char → Except Stop (List Char × List Char)
  | [] => brokenText .basicLines []
  | '"' :: cs =>
    match closing? '"' cs with
    | some result => .ok result
    | none =>
      -- Quotes at the very end are what should have been closing ones.
      if (behindQuotes '"' cs).isEmpty then brokenText .basicLines ('"' :: cs)
      else prepend '"' (basicLines cs)
  | '\\' :: cs =>
    match lineBreak? cs with
    | some n => basicLines (cs.drop n)
    | none =>
      match escape? cs with
      | some (c, n) => prepend c (basicLines (cs.drop n))
      | none => brokenEscape .basicLines cs
  | '\n' :: cs => prepend '\n' (basicLines cs)
  | '\r' :: '\n' :: cs => prepend '\n' (basicLines cs)
  | c :: cs =>
    if isPlainChar c then prepend c (basicLines cs)
    else brokenText .basicLines (c :: cs)
termination_by cs => cs.length

def literalLines : List Char → Except Stop (List Char × List Char)
  | [] => brokenText .literalLines []
  | '\'' :: cs =>
    match closing? '\'' cs with
    | some result => .ok result
    | none =>
      if startsLiteral (behindQuotes '\'' cs) then prepend '\'' (literalLines cs)
      else brokenText .literalLines ('\'' :: cs)
  | '\n' :: cs => prepend '\n' (literalLines cs)
  | '\r' :: '\n' :: cs => prepend '\n' (literalLines cs)
  | c :: cs =>
    if isPlainChar c then prepend c (literalLines cs)
    else brokenText .literalLines (c :: cs)

/-- A line end right behind the opening quotes does not count. -/
def skipNewline (cs : List Char) : List Char :=
  (newline? cs).getD cs

def lineText : Reader (List Char) := fun cs =>
  match cs with
  | '"' :: rest => basicBody rest
  | '\'' :: rest => literalBody rest
  | cs => stop {} cs

def quotedText : Reader (List Char) := fun cs =>
  match cs with
  | '"' :: '"' :: '"' :: rest => basicLines (skipNewline rest)
  | '\'' :: '\'' :: '\'' :: rest => literalLines (skipNewline rest)
  | cs => lineText cs

end DependencyAtlas.Toml
