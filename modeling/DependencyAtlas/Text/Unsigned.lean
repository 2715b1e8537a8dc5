/-!
# Unsigned integers in text

Digits with an optional plus sign, below `2 ^ 64`. The first character that does not fit decides
what is wrong.
-/

namespace DependencyAtlas.Text

inductive UnsignedFault where
  | noDigits
  | invalidDigit
  | tooLarge
deriving DecidableEq

def UnsignedFault.message : UnsignedFault → String
  | noDigits => "cannot parse integer from empty string"
  | invalidDigit => "invalid digit found in string"
  | tooLarge => "number too large to fit in target type"

/-- The numbers of 64 bits are below this one, which is `2 ^ 64`. -/
def unsignedLimit : Nat := 18446744073709551616

def unsignedDigits : Nat → List Char → Except UnsignedFault Nat
  | n, [] => .ok n
  | n, c :: cs =>
    if !c.isDigit then .error .invalidDigit
    else
      let next := n * 10 + (c.toNat - '0'.toNat)
      if unsignedLimit ≤ next then .error .tooLarge else unsignedDigits next cs

def unsigned (s : String) : Except UnsignedFault Nat :=
  match s.toList with
  | [] => .error .noDigits
  | ['+'] => .error .invalidDigit
  | '+' :: digits => unsignedDigits 0 digits
  | digits => unsignedDigits 0 digits

end DependencyAtlas.Text
