import DependencyAtlas.Decimal.Binary
import DependencyAtlas.Toml.Digits
import DependencyAtlas.Toml.Reader

/-!
# Numbers of TOML

Integers of 64 bits in four bases, and floating point numbers. Single underscores may stand between
digits; a decimal number has no superfluous leading zero.
-/

namespace DependencyAtlas.Toml

open Reader

/-- The digits behind the first one, without underscores. -/
def moreDigits (isDigit : Char → Bool) : List Char → Except Stop (List Char × List Char)
  | '_' :: d :: cs =>
    if isDigit d then prepend d (moreDigits isDigit cs)
    else firmly (stop { expected := [.digit] }) (d :: cs)
  | ['_'] => firmly (stop { expected := [.digit] }) []
  | c :: cs => if isDigit c then prepend c (moreDigits isDigit cs) else .ok ([], c :: cs)
  | [] => .ok ([], [])

/-- Reads digits, of which there is at least one. -/
def grouped (isDigit : Char → Bool) : Reader (List Char) := do
  let first ← char isDigit
  let others ← moreDigits isDigit
  return first :: others

/-- Reads a sign if there is one: whether it is a minus. -/
def sign : Reader Bool := do
  let found ← optional (char fun c => c == '+' || c == '-')
  return found == some '-'

def signed (negative : Bool) (n : Int) : Int :=
  if negative then -n else n

def wholeNumber : Reader (Bool × List Char) := named .integer do
  let negative ← sign
  let zero ← optional (char (· == '0'))
  match zero with
  | some digit => return (negative, [digit])
  | none => return (negative, ← grouped Char.isDigit)

def inRange (i : Int) : Except Fault Int :=
  if i < -9223372036854775808 then .error { cause := some .tooSmall }
  else if 9223372036854775807 < i then .error { cause := some .tooLarge }
  else .ok i

def integerOf (base : Nat) (announcement : List Char) (c : Construct) : Reader Int :=
  let digits := named c do
    word announcement
    firmly (grouped (isDigitOf base))
  firmly (check digits fun ds => inRange (numberOfDigits base ds))

def integer : Reader Int := do
  match ← ahead with
  | '0' :: 'x' :: _ => integerOf 16 ['0', 'x'] .hexadecimal
  | '0' :: 'o' :: _ => integerOf 8 ['0', 'o'] .octal
  | '0' :: 'b' :: _ => integerOf 2 ['0', 'b'] .binary
  | _ => require wholeNumber fun (negative, ds) => inRange (signed negative (numberOfDigits 10 ds))

def exponent : Reader Int := do
  let _ ← char fun c => c == 'e' || c == 'E'
  let negative ← sign
  let digits ← firmly (grouped Char.isDigit)
  return signed negative (numberOfDigits 10 digits)

def fraction : Reader (List Char) := do
  mark '.'
  firmly (expecting [.digit] (grouped Char.isDigit))

structure DecimalNotation where
  negative : Bool
  whole : List Char
  fraction : List Char
  exponent : Int

/-- The nearest double. A positive number beyond all doubles is refused. -/
def DecimalNotation.value (d : DecimalNotation) : Except Fault Float :=
  let digits := numberOfDigits 10 (d.whole ++ d.fraction)
  let x := Decimal.nearestDecimal d.negative digits (d.exponent - d.fraction.length)
  if x.isInf && !d.negative then .error {} else .ok x

def decimalNotation : Reader DecimalNotation := do
  let (negative, whole) ← wholeNumber
  let pointed : Reader DecimalNotation := do
    let digits ← fraction
    let e ← optional exponent
    return ⟨negative, whole, digits, e.getD 0⟩
  let scaled : Reader DecimalNotation := do
    let e ← exponent
    return ⟨negative, whole, [], e⟩
  scaled <|> pointed

def specialFloat : Reader Float := do
  let negative ← sign
  let infinite : Reader Float := do
    word ['i', 'n', 'f']
    return if negative then -1.0 / 0.0 else 1.0 / 0.0
  let undefined : Reader Float := do
    word ['n', 'a', 'n']
    return 0.0 / 0.0
  infinite <|> undefined

def float : Reader Float :=
  named .floating (require decimalNotation DecimalNotation.value <|> specialFloat)

end DependencyAtlas.Toml
