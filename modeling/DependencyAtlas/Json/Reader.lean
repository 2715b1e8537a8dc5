import DependencyAtlas.Decimal.Binary
import DependencyAtlas.Json.Value

/-!
# Reading JSON

Reads one value from the bytes of a text. A syntax error carries its cause and its place: the line,
and the bytes of that line up to and including the offending one.
-/

namespace DependencyAtlas.Json

inductive SyntaxFault where
  | endInValue
  | endInList
  | endInObject
  | endInString
  | expectedValue
  | expectedWord
  | expectedColon
  | expectedListSeparator
  | expectedObjectSeparator
  | keyNotText
  | trailingComma
  | trailingCharacters
  | invalidNumber
  | numberOutOfRange
  | invalidEscape
  | unfinishedSurrogatePair
  | loneSurrogate
  | controlCharacter
  | tooDeep
deriving DecidableEq

def SyntaxFault.message : SyntaxFault → String
  | .endInValue => "EOF while parsing a value"
  | .endInList => "EOF while parsing a list"
  | .endInObject => "EOF while parsing an object"
  | .endInString => "EOF while parsing a string"
  | .expectedValue => "expected value"
  | .expectedWord => "expected ident"
  | .expectedColon => "expected `:`"
  | .expectedListSeparator => "expected `,` or `]`"
  | .expectedObjectSeparator => "expected `,` or `\x7d`"
  | .keyNotText => "key must be a string"
  | .trailingComma => "trailing comma"
  | .trailingCharacters => "trailing characters"
  | .invalidNumber => "invalid number"
  | .numberOutOfRange => "number out of range"
  | .invalidEscape => "invalid escape"
  | .unfinishedSurrogatePair => "unexpected end of hex escape"
  | .loneSurrogate => "lone leading surrogate in hex escape"
  | .controlCharacter => "control character (\\u0000-\\u001F) found while parsing a string"
  | .tooDeep => "recursion limit exceeded"

/-- A fault and how many bytes are left behind it. -/
structure Stop where
  fault : SyntaxFault
  unread : Nat

def stopHere {α : Type} (fault : SyntaxFault) (rest : List UInt8) : Except Stop α :=
  .error ⟨fault, rest.length⟩

/-- Stops behind the next byte, if there is one. -/
def stopAtNext {α : Type} (fault : SyntaxFault) (rest : List UInt8) : Except Stop α :=
  .error ⟨fault, rest.length - 1⟩

def isBlankByte (b : UInt8) : Bool :=
  b == 0x20 || b == 0x09 || b == 0x0A || b == 0x0D

def skipBlanks (bs : List UInt8) : List UInt8 :=
  bs.dropWhile isBlankByte

def isDigit (b : UInt8) : Bool :=
  0x30 ≤ b && b ≤ 0x39

def digitValue (b : UInt8) : Nat :=
  b.toNat - 0x30

def hexValue? (b : UInt8) : Option Nat :=
  if isDigit b then some (digitValue b)
  else if 0x41 ≤ b && b ≤ 0x46 then some (b.toNat - 0x41 + 10)
  else if 0x61 ≤ b && b ≤ 0x66 then some (b.toNat - 0x61 + 10)
  else none

def readWord (value : Json) : List UInt8 → List UInt8 → Except Stop (Json × List UInt8)
  | [], bs => .ok (value, bs)
  | _ :: _, [] => stopHere .endInValue []
  | w :: word, b :: bs => if b = w then readWord value word bs else stopHere .expectedWord bs

/-- The largest unsigned and the largest signed integer of 64 bits. -/
def maxUnsigned : Nat := 18446744073709551615
def maxSigned : Nat := 9223372036854775807

/-- The largest power of ten that is a finite double. -/
def maxPower : Int := 308

/-- A significand times a power of ten, scaled in floating point by one power at a time. Nothing
where the result is beyond the largest double. -/
def scaleFloat : Nat → Float → Int → Option Float
  | 0, x, _ => some x
  | fuel + 1, x, exponent =>
    if -maxPower ≤ exponent ∧ exponent ≤ maxPower then
      let power := Decimal.nearestDecimal false 1 exponent.natAbs
      if 0 ≤ exponent then
        let y := x * power
        if y.isInf then none else some y
      else some (x / power)
    else if x == 0 then some x
    else if 0 ≤ exponent then none
    else scaleFloat fuel (x / Decimal.nearestDecimal false 1 maxPower) (exponent + maxPower)

/-- The double of a sign, a significand and a power of ten. -/
def floatOfParts (negative : Bool) (significand : Nat) (exponent : Int) (rest : List UInt8) :
    Except Stop (Json × List UInt8) :=
  match scaleFloat (exponent.natAbs + 1) (Decimal.nearestInt significand) exponent with
  | some x => .ok (.float (if negative then -x else x), rest)
  | none => stopHere .numberOutOfRange rest

/-- The exponents a number may name without being out of range or zero for that alone. -/
def maxExponent : Nat := 2147483647

def clampExponent (e : Int) : Int :=
  max (-2147483648) (min e maxExponent)

def readExponentDigits (negative : Bool) (significand : Nat) (start : Int) (positive : Bool) :
    Nat → List UInt8 → Except Stop (Json × List UInt8)
  | e, b :: bs =>
    if isDigit b then
      if maxExponent < e * 10 + digitValue b then
        if significand ≠ 0 ∧ positive then stopHere .numberOutOfRange bs
        else .ok (.float (if negative then -0.0 else 0.0), bs.dropWhile isDigit)
      else readExponentDigits negative significand start positive (e * 10 + digitValue b) bs
    else
      floatOfParts negative significand
        (clampExponent (if positive then start + e else start - e)) (b :: bs)
  | e, [] =>
    floatOfParts negative significand (clampExponent (if positive then start + e else start - e)) []

def readExponent (negative : Bool) (significand : Nat) (start : Int) (bs : List UInt8) :
    Except Stop (Json × List UInt8) :=
  let positive := bs.head? != some '-'.toUInt8
  let digits := if bs.head? = some '+'.toUInt8 ∨ bs.head? = some '-'.toUInt8 then bs.tail else bs
  match digits with
  | [] => stopHere .endInValue []
  | b :: rest =>
    if isDigit b then
      readExponentDigits negative significand start positive (digitValue b) rest
    else stopHere .invalidNumber rest

def readAfterFraction (negative : Bool) (significand : Nat) (exponent : Int) :
    List UInt8 → Except Stop (Json × List UInt8)
  | b :: bs =>
    if b = 'e'.toUInt8 ∨ b = 'E'.toUInt8 then readExponent negative significand exponent bs
    else floatOfParts negative significand exponent (b :: bs)
  | [] => floatOfParts negative significand exponent []

/-- Reads the digits behind the point, `count` of them being read. Digits that no longer fit the
significand are passed over. -/
def readFraction (negative : Bool) (start : Int) :
    Nat → Nat → List UInt8 → Except Stop (Json × List UInt8)
  | significand, count, b :: bs =>
    if isDigit b then
      if maxUnsigned < significand * 10 + digitValue b then
        readAfterFraction negative significand (start - count) (bs.dropWhile isDigit)
      else readFraction negative start (significand * 10 + digitValue b) (count + 1) bs
    else if count = 0 then stopAtNext .invalidNumber (b :: bs)
    else readAfterFraction negative significand (start - count) (b :: bs)
  | significand, count, [] =>
    if count = 0 then stopAtNext .endInValue []
    else readAfterFraction negative significand (start - count) []

/-- Passes over the digits of an integer that no longer fit the significand; each is a factor
of ten. -/
def readLongInteger (negative : Bool) (significand : Nat) :
    Nat → List UInt8 → Except Stop (Json × List UInt8)
  | exponent, b :: bs =>
    if isDigit b then readLongInteger negative significand (exponent + 1) bs
    else if b = '.'.toUInt8 then readFraction negative exponent significand 0 bs
    else if b = 'e'.toUInt8 ∨ b = 'E'.toUInt8 then readExponent negative significand exponent bs
    else floatOfParts negative significand exponent (b :: bs)
  | exponent, [] => floatOfParts negative significand exponent []

/-- An integer, or the double it stands for when it does not fit. A negative zero is a double. -/
def integerValue (negative : Bool) (n : Nat) : Json :=
  if !negative then .int n
  else if n = 0 ∨ maxSigned + 1 < n then .float (-(Decimal.nearestInt n))
  else .int (-(n : Int))

def readAfterInteger (negative : Bool) (n : Nat) : List UInt8 → Except Stop (Json × List UInt8)
  | b :: bs =>
    if b = '.'.toUInt8 then readFraction negative 0 n 0 bs
    else if b = 'e'.toUInt8 ∨ b = 'E'.toUInt8 then readExponent negative n 0 bs
    else .ok (integerValue negative n, b :: bs)
  | [] => .ok (integerValue negative n, [])

def readIntegerDigits (negative : Bool) : Nat → List UInt8 → Except Stop (Json × List UInt8)
  | n, b :: bs =>
    if isDigit b then
      if maxUnsigned < n * 10 + digitValue b then readLongInteger negative n 0 (b :: bs)
      else readIntegerDigits negative (n * 10 + digitValue b) bs
    else readAfterInteger negative n (b :: bs)
  | n, [] => readAfterInteger negative n []

/-- Reads a number behind its sign. No digit may follow a leading zero. -/
def readNumber (negative : Bool) : List UInt8 → Except Stop (Json × List UInt8)
  | [] => stopHere .endInValue []
  | b :: bs =>
    if b = '0'.toUInt8 then
      if bs.head?.any isDigit then stopAtNext .invalidNumber bs else readAfterInteger negative 0 bs
    else if isDigit b then readIntegerDigits negative (digitValue b) bs
    else stopHere .invalidNumber bs

def readHex : List UInt8 → Except Stop (Nat × List UInt8)
  | a :: b :: c :: d :: rest =>
    match hexValue? a, hexValue? b, hexValue? c, hexValue? d with
    | some w, some x, some y, some z => .ok (((w * 16 + x) * 16 + y) * 16 + z, rest)
    | _, _, _, _ => stopHere .invalidEscape rest
  | _ => stopHere .endInString []

def expectInPair (wanted : UInt8) : List UInt8 → Except Stop (List UInt8)
  | [] => stopHere .endInString []
  | b :: bs => if b = wanted then .ok bs else stopHere .unfinishedSurrogatePair bs

def readCodePoint (bs : List UInt8) : Except Stop (Nat × List UInt8) := do
  let (high, rest) ← readHex bs
  if 0xDC00 ≤ high ∧ high ≤ 0xDFFF then stopHere .loneSurrogate rest
  else if high < 0xD800 ∨ 0xDBFF < high then .ok (high, rest)
  else
    let rest ← expectInPair '\\'.toUInt8 rest
    let rest ← expectInPair 'u'.toUInt8 rest
    let (low, rest) ← readHex rest
    if low < 0xDC00 ∨ 0xDFFF < low then stopHere .loneSurrogate rest
    else .ok ((high - 0xD800) * 0x400 + (low - 0xDC00) + 0x10000, rest)

def utf8Bytes (codePoint : Nat) : List UInt8 :=
  (String.singleton (Char.ofNat codePoint)).toUTF8.toList

def readEscape : List UInt8 → Except Stop (List UInt8 × List UInt8)
  | [] => stopHere .endInString []
  | b :: bs =>
    if b = '"'.toUInt8 ∨ b = '\\'.toUInt8 ∨ b = '/'.toUInt8 then .ok ([b], bs)
    else if b = 'b'.toUInt8 then .ok ([0x08], bs)
    else if b = 'f'.toUInt8 then .ok ([0x0C], bs)
    else if b = 'n'.toUInt8 then .ok ([0x0A], bs)
    else if b = 'r'.toUInt8 then .ok ([0x0D], bs)
    else if b = 't'.toUInt8 then .ok ([0x09], bs)
    else if b = 'u'.toUInt8 then do
      let (codePoint, rest) ← readCodePoint bs
      .ok (utf8Bytes codePoint, rest)
    else stopHere .invalidEscape bs

def textOfReversed (bytes : List UInt8) : String :=
  (String.fromUTF8? ⟨bytes.reverse.toArray⟩).getD ""

/-- Reads a text behind its opening quote. The fuel bounds the number of characters and
escapes. -/
def readText : Nat → List UInt8 → List UInt8 → Except Stop (String × List UInt8)
  | 0, _, bs => stopHere .endInString bs
  | _ + 1, _, [] => stopHere .endInString []
  | fuel + 1, acc, b :: bs =>
    if b = '"'.toUInt8 then .ok (textOfReversed acc, bs)
    else if b = '\\'.toUInt8 then do
      let (bytes, rest) ← readEscape bs
      readText fuel (bytes.reverse ++ acc) rest
    else if b < 0x20 then stopHere .controlCharacter bs
    else readText fuel (b :: acc) bs

/-- Passes over the separator in front of the next item or field. Yields nothing at the closing
bracket. -/
def nextEntry (close : UInt8) (atEnd missing : SyntaxFault) (first : Bool) (bs : List UInt8) :
    Except Stop (Option (List UInt8) × List UInt8) :=
  match skipBlanks bs with
  | [] => stopAtNext atEnd []
  | b :: rest =>
    if b = close then .ok (none, rest)
    else if first then .ok (some (b :: rest), b :: rest)
    else if b = ','.toUInt8 then
      match skipBlanks rest with
      | [] => stopAtNext .endInValue []
      | c :: tail =>
        if c = close then stopAtNext .trailingComma (c :: tail)
        else .ok (some (c :: tail), c :: tail)
    else stopAtNext missing (b :: rest)

def expectColon (bs : List UInt8) : Except Stop (List UInt8) :=
  match skipBlanks bs with
  | [] => stopAtNext .endInObject []
  | b :: rest => if b = ':'.toUInt8 then .ok rest else stopAtNext .expectedColon (b :: rest)

mutual

/-- Reads a value. `depth` is one more than the number of brackets that may still open. -/
def readValue : Nat → Nat → List UInt8 → Except Stop (Json × List UInt8)
  | 0, _, bs => stopHere .endInValue bs
  | fuel + 1, depth, bs =>
    match skipBlanks bs with
    | [] => stopAtNext .endInValue []
    | b :: rest =>
      if b = 'n'.toUInt8 then readWord .null "ull".toUTF8.toList rest
      else if b = 't'.toUInt8 then readWord (.bool true) "rue".toUTF8.toList rest
      else if b = 'f'.toUInt8 then readWord (.bool false) "alse".toUTF8.toList rest
      else if b = '-'.toUInt8 then readNumber true rest
      else if isDigit b then readNumber false (b :: rest)
      else if b = '"'.toUInt8 then do
        let (s, rest) ← readText (fuel + 1) [] rest
        .ok (.text s, rest)
      else if b = '['.toUInt8 then
        if depth ≤ 1 then stopAtNext .tooDeep (b :: rest)
        else readItems fuel (depth - 1) [] true rest
      else if b = '\x7b'.toUInt8 then
        if depth ≤ 1 then stopAtNext .tooDeep (b :: rest)
        else readFields fuel (depth - 1) [] true rest
      else stopAtNext .expectedValue (b :: rest)

def readItems : Nat → Nat → List Json → Bool → List UInt8 → Except Stop (Json × List UInt8)
  | 0, _, _, _, bs => stopHere .endInList bs
  | fuel + 1, depth, acc, first, bs =>
    match nextEntry ']'.toUInt8 .endInList .expectedListSeparator first bs with
    | .error stop => .error stop
    | .ok (none, rest) => .ok (.list acc.reverse, rest)
    | .ok (some item, _) =>
      match readValue fuel depth item with
      | .error stop => .error stop
      | .ok (value, rest) => readItems fuel depth (value :: acc) false rest

def readFields :
    Nat → Nat → List (String × Json) → Bool → List UInt8 → Except Stop (Json × List UInt8)
  | 0, _, _, _, bs => stopHere .endInObject bs
  | fuel + 1, depth, acc, first, bs =>
    match nextEntry '\x7d'.toUInt8 .endInObject .expectedObjectSeparator first bs with
    | .error stop => .error stop
    | .ok (none, rest) => .ok (.ofFields acc.reverse, rest)
    | .ok (some [], rest) => stopHere .endInObject rest
    | .ok (some (b :: field), _) =>
      if b ≠ '"'.toUInt8 then stopAtNext .keyNotText (b :: field)
      else
        match readText (fuel + 1) [] field with
        | .error stop => .error stop
        | .ok (key, rest) =>
          match expectColon rest with
          | .error stop => .error stop
          | .ok rest =>
            match readValue fuel depth rest with
            | .error stop => .error stop
            | .ok (value, rest) => readFields fuel depth ((key, value) :: acc) false rest

end

/-- How many brackets may be open at once, and one more. -/
def depthLimit : Nat := 128

def readBytes (bs : List UInt8) : Except Stop Json :=
  match readValue (2 * bs.length + 2) depthLimit bs with
  | .error stop => .error stop
  | .ok (value, rest) =>
    match skipBlanks rest with
    | [] => .ok value
    | b :: rest => stopAtNext .trailingCharacters (b :: rest)

/-- A fault and its place: lines count from one, columns are the bytes read of the line. -/
structure SyntaxError where
  fault : SyntaxFault
  line : Nat
  column : Nat
deriving DecidableEq

def SyntaxError.behind (fault : SyntaxFault) (consumed : List UInt8) : SyntaxError where
  fault := fault
  line := consumed.count 0x0A + 1
  column := (consumed.reverse.takeWhile (· != 0x0A)).length

def SyntaxError.message (e : SyntaxError) : String :=
  s!"{e.fault.message} at line {e.line} column {e.column}"

def read (s : String) : Except SyntaxError Json :=
  let bs := s.toUTF8.toList
  match readBytes bs with
  | .ok value => .ok value
  | .error stop => .error (.behind stop.fault (bs.take (bs.length - stop.unread)))

end DependencyAtlas.Json
