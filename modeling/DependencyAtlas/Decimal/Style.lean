import DependencyAtlas.Decimal.Shortest

/-!
# Texts of floating point values

Shortest notation, positional in the middle of the range and scientific outside it, plain notation
without an exponent, and notation with a fixed number of decimal places.
-/

namespace DependencyAtlas.Decimal

def digitChars (n : Nat) : List Char :=
  Nat.toDigits 10 n

def zeros (n : Nat) : List Char :=
  List.replicate n '0'

/-- Digits with their point, the first digit having the weight `10 ^ top`. At least one digit
stands on each side of the point. -/
def positional (digits : List Char) (top : Int) : List Char :=
  if top < 0 then ['0', '.'] ++ zeros (-top - 1).toNat ++ digits
  else
    let whole := top.toNat + 1
    let fraction := digits.drop whole
    digits.take whole ++ zeros (whole - digits.length) ++ '.' ::
      if fraction.isEmpty then ['0'] else fraction

/-- Digits with the point behind the first one and an exponent with its sign. A single digit has
no point. -/
def scientific (digits : List Char) (top : Int) : List Char :=
  let fraction := digits.drop 1
  digits.take 1 ++ (if fraction.isEmpty then [] else '.' :: fraction) ++
    ['e', if top < 0 then '-' else '+'] ++ digitChars top.natAbs

structure Style where
  /-- The decimal exponents that are written without an exponent. -/
  isPositional : Int → Bool
  /-- The last digit of a value that lies halfway between two shortest notations. -/
  tie : Tie

/-- Exponents from -5 to 15 are written positionally, and a tie goes to the even digit. -/
def Style.compact : Style where
  isPositional top := -5 ≤ top ∧ top ≤ 15
  tie := .even

/-- No exponent is ever written, and a tie goes away from zero. -/
def Style.plain : Style where
  isPositional _ := true
  tie := .up

/-- The text of a finite value; an integral one keeps the zero behind its point. -/
def Style.finite (st : Style) (significand : Nat) (exponent : Int) : List Char :=
  if significand = 0 then ['0', '.', '0']
  else
    let d := shortest st.tie significand exponent
    let digits := digitChars d.digits
    let top := d.exponent + (digits.length : Int) - 1
    if st.isPositional top then positional digits top else scientific digits top

def Style.text (st : Style) (x : Float) : String :=
  match Binary.ofFloat x with
  | .nan => "NaN"
  | .infinite negative => if negative then "-inf" else "inf"
  | .finite negative m e => String.ofList ((if negative then ['-'] else []) ++ st.finite m e)

/-- A finite value in units of the last of `places` decimal places, a tie going to the even
unit. -/
def fixedUnits (places significand : Nat) (exponent : Int) : Nat :=
  roundDiv ((significand * powerOfTen places) <<< exponent.toNat) (1 <<< (-exponent).toNat)

/-- The text of a double with a fixed number of decimal places, which is not zero. -/
def fixed (places : Nat) (x : Float) : String :=
  match Binary.ofFloat x with
  | .nan => "NaN"
  | .infinite negative => if negative then "-inf" else "inf"
  | .finite negative m e =>
    let units := fixedUnits places m e
    let fraction := digitChars (units % powerOfTen places)
    String.ofList ((if negative then ['-'] else []) ++ digitChars (units / powerOfTen places) ++
      '.' :: zeros (places - fraction.length) ++ fraction)

end DependencyAtlas.Decimal
