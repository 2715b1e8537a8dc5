/-!
# Random numbers

A generator yields words of 64 bits. A number below a bound is drawn by multiplying a word with the
bound and keeping the high half; words whose low half falls into the incomplete last part of the
range are passed over, so that every number is equally likely.
-/

namespace DependencyAtlas

/-- A source of words of 64 bits. -/
class Generator (σ : Type) where
  next : σ → UInt64 × σ

namespace Generator

/-- The largest low half that counts. The bound is shifted to the left until its top bit is set. -/
def zone (bound : Nat) : Nat :=
  bound <<< (63 - bound.log2) - 1

/-- Draws until a word counts. When the attempts are used up the next word counts anyway. -/
def drawBelow {σ : Type} [Generator σ] (bound : Nat) : Nat → σ → Nat × σ
  | 0, g =>
    let (v, g) := next g
    (v.toNat * bound / UInt64.size, g)
  | attempts + 1, g =>
    let (v, g) := next g
    let product := v.toNat * bound
    if product % UInt64.size ≤ zone bound then (product / UInt64.size, g)
    else drawBelow bound attempts g

def below {σ : Type} [Generator σ] (bound : Nat) (g : σ) : Nat × σ :=
  drawBelow bound UInt32.size g

theorem drawBelow_lt {σ : Type} [Generator σ] {bound : Nat} (h : 0 < bound) (attempts : Nat)
    (g : σ) : (drawBelow bound attempts g).1 < bound := by
  have hv (v : UInt64) : v.toNat * bound / UInt64.size < bound := by
    rw [Nat.div_lt_iff_lt_mul (by decide), Nat.mul_comm bound]
    exact Nat.mul_lt_mul_of_pos_right v.toNat_lt h
  induction attempts generalizing g with
  | zero => exact hv _
  | succ attempts ih =>
    simp only [drawBelow]
    split
    · exact hv _
    · exact ih _

theorem below_lt {σ : Type} [Generator σ] {bound : Nat} (h : 0 < bound) (g : σ) :
    (below bound g).1 < bound :=
  drawBelow_lt h _ g

end Generator

/-- The generator whose words are an arithmetic progression modulo `2 ^ 64`. -/
structure Progression where
  current : UInt64
  step : UInt64

instance : Generator Progression where
  next g := (g.current, { g with current := g.current + g.step })

end DependencyAtlas
