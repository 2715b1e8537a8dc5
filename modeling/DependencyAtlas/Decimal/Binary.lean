/-!
# Binary floating point values taken apart

A finite double is a sign, a significand below `2 ^ 53` and a power of two. The other way round, a
quotient of two natural numbers is rounded to the nearest double, a tie to the even significand.
-/

namespace DependencyAtlas.Decimal

/-- What the bits of a double say. A finite value is `significand * 2 ^ exponent`. -/
inductive Binary where
  | nan
  | infinite (negative : Bool)
  | finite (negative : Bool) (significand : Nat) (exponent : Int)
deriving DecidableEq

def signBit : Nat := 9223372036854775808

/-- The bit that a normal double has in front of its 52 fraction bits. -/
def leadingBit : Nat := 4503599627370496

def leastExponent : Int := -1074

def Binary.ofFloat (x : Float) : Binary :=
  let bits := x.toBits.toNat
  let negative := bits / signBit == 1
  let biased : Nat := bits / leadingBit % 2048
  let fraction := bits % leadingBit
  if biased = 2047 then
    if fraction = 0 then .infinite negative else .nan
  else if biased = 0 then .finite negative fraction leastExponent
  else .finite negative (leadingBit + fraction) (biased - 1075)

def powerOfTen (n : Nat) : Nat :=
  Nat.pow 10 n

/-- The nearest natural number to `num / den`, a tie going to the even one. -/
def roundDiv (num den : Nat) : Nat :=
  let q := num / den
  let r := num % den
  if 2 * r < den then q
  else if den < 2 * r then q + 1
  else q + q % 2

def scaleDown (num den : Nat) (e : Int) : Nat × Nat :=
  (num <<< (-e).toNat, den <<< e.toNat)

/-- The exponent at which a positive quotient has a significand of 53 bits, or the least exponent
where that is larger. -/
def exponentFor (num den : Nat) : Int :=
  let e := (num.log2 : Int) - (den.log2 : Int) - 53
  let s := scaleDown num den e
  max leastExponent (if s.1 / s.2 < 2 * leadingBit then e else e + 1)

/-- The bits of the double nearest to the quotient `num / den` without its sign. Beyond the
largest double they are those of infinity. -/
def nearestBits (num den : Nat) : Nat :=
  if num = 0 then 0
  else
    let e := exponentFor num den
    let s := scaleDown num den e
    let significand := roundDiv s.1 s.2
    let bits :=
      if significand < leadingBit then significand
      else (e - leastExponent + 1).toNat * leadingBit + (significand - leadingBit)
    min bits (2047 * leadingBit)

def nearest (negative : Bool) (num den : Nat) : Float :=
  Float.ofBits (UInt64.ofNat (nearestBits num den + if negative then signBit else 0))

/-- The double nearest to `significand * 10 ^ exponent`. Powers so large or so small that the
result is infinite or zero are not worked out. -/
def nearestDecimal (negative : Bool) (significand : Nat) (exponent : Int) : Float :=
  let digits : Int := (significand.log2 + 1 : Nat)
  if significand = 0 ∨ exponent < -(digits + 400) then nearest negative 0 1
  else if 400 < exponent then nearest negative (1 <<< 1100) 1
  else nearest negative (significand * powerOfTen exponent.toNat) (powerOfTen (-exponent).toNat)

def nearestInt (i : Int) : Float :=
  nearest (i < 0) i.natAbs 1

end DependencyAtlas.Decimal
