import DependencyAtlas.Decimal.Binary

/-!
# Shortest decimal digits

The fewest decimal digits that read back as a given double, and of those the nearest to it. With
1, 2, … 17 digits the two neighbours of the value on that decimal grid are tried in exact
arithmetic; the first grid with a hit wins. The value may lie halfway between two hits: which one
is taken then is up to the notation.
-/

namespace DependencyAtlas.Decimal

/-- A positive decimal number `digits * 10 ^ exponent`. -/
structure Digits where
  digits : Nat
  exponent : Int
deriving DecidableEq

/-- Which of two neighbours is taken that are equally near. -/
inductive Tie where
  /-- The one whose last digit is even. -/
  | even
  /-- The greater one. -/
  | up
deriving DecidableEq

/-- A positive double measured in quarters of its last place, on the grid of multiples of
`10 ^ place`: a grid point `c` is `4 * c * step`, the value is `4 * significand * unit`. -/
structure Grid where
  significand : Nat
  unit : Nat
  step : Nat
  /-- The gap below the value is half as wide as the one above it. -/
  narrow : Bool

namespace Grid

def ofDouble (significand : Nat) (exponent place : Int) : Grid where
  significand := significand
  unit := powerOfTen (-place).toNat <<< exponent.toNat
  step := powerOfTen place.toNat <<< (-exponent).toNat
  narrow := significand = leadingBit ∧ leastExponent < exponent

/-- Whether a grid point reads back as the value. The ends of the interval do so for an even
significand. -/
def contains (g : Grid) (c : Nat) : Bool :=
  let point := 4 * c * g.step
  let low := (4 * g.significand - if g.narrow then 1 else 2) * g.unit
  let high := (4 * g.significand + 2) * g.unit
  if g.significand % 2 = 0 then low ≤ point ∧ point ≤ high else low < point ∧ point < high

def floor (g : Grid) : Nat :=
  g.significand * g.unit / g.step

/-- The neighbour of the value that reads back as it, the nearer one if both do. -/
def hit (tie : Tie) (g : Grid) : Option Nat :=
  let low := g.floor
  match g.contains low, g.contains (low + 1) with
  | true, true =>
    let below := g.significand * g.unit - low * g.step
    let above := (low + 1) * g.step - g.significand * g.unit
    let evenBelow : Bool := tie = .even ∧ low % 2 = 0
    some (if below < above ∨ (below = above ∧ evenBelow) then low else low + 1)
  | true, false => some low
  | false, true => some (low + 1)
  | false, false => none

end Grid

/-- The largest `e` with `10 ^ e` at most the positive value `significand * 2 ^ exponent`. -/
def decimalExponent (significand : Nat) (exponent : Int) : Int :=
  let estimate := ((significand.log2 : Int) + exponent) * 30103 / 100000
  let atLeast (e : Int) : Bool := 1 ≤ (Grid.ofDouble significand exponent e).floor
  if atLeast (estimate + 1) then estimate + 1
  else if atLeast estimate then estimate
  else estimate - 1

def Digits.trimZeros : Nat → Digits → Digits
  | 0, d => d
  | fuel + 1, d =>
    if d.digits ≠ 0 ∧ d.digits % 10 = 0 then
      trimZeros fuel ⟨d.digits / 10, d.exponent + 1⟩
    else d

def shortestFrom (tie : Tie) (significand : Nat) (exponent top : Int) (count : Nat) : Nat → Digits
  | 0 => ⟨0, 0⟩
  | fuel + 1 =>
    let place := top - (count : Int) + 1
    match (Grid.ofDouble significand exponent place).hit tie with
    | some c => Digits.trimZeros 20 ⟨c, place⟩
    | none => shortestFrom tie significand exponent top (count + 1) fuel

/-- The shortest digits of the positive double `significand * 2 ^ exponent`. -/
def shortest (tie : Tie) (significand : Nat) (exponent : Int) : Digits :=
  shortestFrom tie significand exponent (decimalExponent significand exponent) 1 20

end DependencyAtlas.Decimal
