import DependencyAtlas.Analysis.PageRank
import Mathlib

/-!
# The total order of doubles

Scores are put in order by their bits alone. Two numbers that differ as numbers stand there as they
compare, zero has a place for each sign, and what is not a number has a place of its own, so every
two doubles are in order.
-/

namespace DependencyAtlas

open Decimal (signBit leadingBit leastExponent Binary)
open Float.Model (UnpackedFloat)
open Float.Model.UnpackedFloat (Sign unpackMantissa unpackExponent unpackSign)

/-- The order in which every two doubles stand. What is not a number comes from arithmetic and has
its sign set, which puts it before all numbers. -/
inductive TotallyBelow (x y : Float) : Prop where
  | less (h : x < y)
  | zeros (hx : x = -0.0) (hy : y = 0.0)
  | nan (hx : x.isNaN = true) (hy : y.isNaN = false)

namespace Decimal.Binary

def signOf (negative : Bool) : Sign :=
  if negative then .negative else .positive

/-- The same value in the logic of doubles, where zero is apart from the other finite numbers. -/
def unpacked : Binary → UnpackedFloat
  | .nan => .notANumber
  | .infinite negative => .infinity (signOf negative)
  | .finite negative 0 _ => .zero (signOf negative)
  | .finite negative (m + 1) e => .finite (signOf negative) (m + 1) e m.succ_pos

theorem unpacked_finite (negative : Bool) {m : Nat} (h : 0 < m) (e : Int) :
    unpacked (.finite negative m e) = .finite (signOf negative) m e h := by
  cases m with
  | zero => exact absurd h (Nat.lt_irrefl 0)
  | succ m => rfl

theorem toNat_unpackMantissa (x : Float) :
    (@unpackMantissa .binary64 x.toModel.toBits.toBitVec).toNat = x.toBits.toNat % leadingBit := by
  simp [unpackMantissa, leadingBit, Float.toBits]

theorem toNat_unpackExponent (x : Float) :
    (@unpackExponent .binary64 x.toModel.toBits.toBitVec).toNat =
      x.toBits.toNat / leadingBit % 2048 := by
  simp [unpackExponent, leadingBit, Float.toBits, Nat.shiftRight_eq_div_pow]

theorem unpackMantissa_eq_zero_iff (x : Float) :
    @unpackMantissa .binary64 x.toModel.toBits.toBitVec = 0#_ ↔
      x.toBits.toNat % leadingBit = 0 := by
  rw [← BitVec.toNat_inj, toNat_unpackMantissa]
  rfl

theorem unpackExponent_eq_top_iff (x : Float) :
    @unpackExponent .binary64 x.toModel.toBits.toBitVec = -1#_ ↔
      x.toBits.toNat / leadingBit % 2048 = 2047 := by
  rw [← BitVec.toNat_inj, toNat_unpackExponent]
  rfl

theorem unpackExponent_eq_zero_iff (x : Float) :
    @unpackExponent .binary64 x.toModel.toBits.toBitVec = 0#_ ↔
      x.toBits.toNat / leadingBit % 2048 = 0 := by
  rw [← BitVec.toNat_inj, toNat_unpackExponent]
  rfl

theorem toNat_append_unpackMantissa (x : Float) :
    (1#1 ++ @unpackMantissa .binary64 x.toModel.toBits.toBitVec).toNat =
      leadingBit + x.toBits.toNat % leadingBit := by
  rw [BitVec.toNat_append, toNat_unpackMantissa]
  have hlt : x.toBits.toNat % leadingBit < 2 ^ 52 := Nat.mod_lt _ (by decide)
  exact (Nat.two_pow_add_eq_or_of_lt hlt 1).symm

theorem ofBitVec_unpackSign (x : Float) :
    Sign.ofBitVec (@unpackSign .binary64 x.toModel.toBits.toBitVec) =
      signOf (x.toBits.toNat / signBit == 1) := by
  have hlt := x.toBits.toNat_lt
  have hsign : (@unpackSign .binary64 x.toModel.toBits.toBitVec).toNat =
      x.toBits.toNat / signBit := by
    simp [unpackSign, signBit, Float.toBits, Nat.shiftRight_eq_div_pow] at *
    omega
  simp only [Sign.ofBitVec, signOf, ← BitVec.toNat_inj, signBit] at *
  grind

theorem unpack_eq (x : Float) : x.toModel.unpack = unpacked (ofFloat x) := by
  have htop := unpackExponent_eq_top_iff x
  have hleast := unpackExponent_eq_zero_iff x
  have hzero := unpackMantissa_eq_zero_iff x
  simp only [Float.Model.unpack, UnpackedFloat.unpack, ofFloat, ofBitVec_unpackSign, htop, hleast]
  split
  · split
    · next h =>
      rw [if_pos (hzero.mp h)]
      rfl
    · next h =>
      rw [if_neg fun hfraction => h (hzero.mpr hfraction)]
      rfl
  · split
    · next hbiased =>
      split
      · next h =>
        rw [hzero.mp h]
        rfl
      · next h =>
        rw [unpacked_finite _ (Nat.pos_of_ne_zero fun hfraction => h (hzero.mpr hfraction))]
        congr 1
        rw [toNat_unpackExponent, hbiased]
        rfl
    · rw [unpacked_finite _ (by unfold leadingBit; omega)]
      congr 1
      · exact toNat_append_unpackMantissa x
      · rw [toNat_unpackExponent]
        rfl

/-- The place among the doubles that are not negative. -/
def weight (m : Nat) (e : Int) : Int :=
  (e - leastExponent) * leadingBit + m

def signed (negative : Bool) (w : Int) : Int :=
  if negative then -w else w

/-- The place of a number, the same for both zeros. -/
def place : Binary → Int
  | .nan => 0
  | .infinite negative => signed negative (2047 * leadingBit)
  | .finite negative m e => signed negative (weight m e)

/-- A significand and an exponent as a double holds them: with 53 bits, or with the least
exponent. -/
structure Canonical (m : Nat) (e : Int) : Prop where
  lt : m < 2 * leadingBit
  least_le : leastExponent ≤ e
  le_greatest : e ≤ 971
  full : leastExponent < e → leadingBit ≤ m

namespace Canonical

variable {m n : Nat} {e f : Int}

theorem weight_lt (h : Canonical m e) : weight m e < 2047 * leadingBit := by
  obtain ⟨lt, -, le_greatest, -⟩ := h
  simp only [weight, leadingBit, leastExponent] at *
  omega

theorem weight_pos (h : Canonical m e) (hm : 0 < m) : 0 < weight m e := by
  obtain ⟨-, least_le, -, -⟩ := h
  simp only [weight, leadingBit, leastExponent] at *
  omega

theorem weight_zero (h : Canonical 0 e) : weight 0 e = 0 := by
  obtain ⟨-, least_le, -, full⟩ := h
  simp only [weight, leadingBit, leastExponent] at *
  omega

/-- Significands count only between equal exponents. -/
theorem compare_eq (hm : Canonical m e) (hn : Canonical n f) :
    (compare e f).then (compare m n) = compare (weight m e) (weight n f) := by
  obtain ⟨hm, he, -, hme⟩ := hm
  obtain ⟨hn, hf, -, hnf⟩ := hn
  simp only [weight, leadingBit, leastExponent] at *
  rcases Int.lt_trichotomy e f with h | rfl | h
  · rw [Int.compare_eq_lt.mpr h, Int.compare_eq_lt.mpr (by omega)]
    rfl
  · rw [Int.compare_eq_eq.mpr rfl]
    rcases Nat.lt_trichotomy m n with h | rfl | h
    · rw [Nat.compare_eq_lt.mpr h, Int.compare_eq_lt.mpr (by omega)]
      rfl
    · rw [Nat.compare_eq_eq.mpr rfl, Int.compare_eq_eq.mpr rfl]
      rfl
    · rw [Nat.compare_eq_gt.mpr h, Int.compare_eq_gt.mpr (by omega)]
      rfl
  · rw [Int.compare_eq_gt.mpr h, Int.compare_eq_gt.mpr (by omega)]
    rfl

theorem lt_iff (hm : Canonical m e) (hn : Canonical n f) (s s' : Bool) :
    (unpacked (.finite s m e)).lt (unpacked (.finite s' n f)) = true ↔
      signed s (weight m e) < signed s' (weight n f) := by
  -- The logic of doubles has zeros of their own, so both significands are split.
  cases m with
  | zero =>
    rw [hm.weight_zero]
    cases n with
    | zero =>
      rw [hn.weight_zero]
      cases s <;> cases s' <;> exact iff_of_false Bool.false_ne_true (Int.lt_irrefl 0)
    | succ n =>
      have hpos := hn.weight_pos n.succ_pos
      cases s <;> cases s' <;>
        simp [unpacked, signOf, UnpackedFloat.lt, UnpackedFloat.compare, signed] <;> omega
  | succ m =>
    have hpos := hm.weight_pos m.succ_pos
    cases n with
    | zero =>
      rw [hn.weight_zero]
      cases s <;> cases s' <;>
        simp [unpacked, signOf, UnpackedFloat.lt, UnpackedFloat.compare, signed] <;> omega
    | succ n =>
      have hpos' := hn.weight_pos n.succ_pos
      cases s <;> cases s' <;>
        simp [unpacked, signOf, UnpackedFloat.lt, UnpackedFloat.compare, signed, hm.compare_eq hn,
          Int.compare_eq_lt, Int.compare_eq_gt] <;> omega

theorem weight_nonneg (h : Canonical m e) : 0 ≤ weight m e := by
  cases m with
  | zero => exact Int.le_of_eq h.weight_zero.symm
  | succ m => exact Int.le_of_lt (h.weight_pos m.succ_pos)

theorem bounds (h : Canonical m e) (s : Bool) :
    -(2047 * leadingBit) < signed s (weight m e) ∧ signed s (weight m e) < 2047 * leadingBit := by
  have hlt := h.weight_lt
  have hnonneg := h.weight_nonneg
  cases s <;> simp only [signed, if_true, Bool.false_eq_true, if_false] <;> omega

end Canonical

/-- A number that a double can hold. -/
def Held : Binary → Prop
  | .nan => False
  | .infinite _ => True
  | .finite _ m e => Canonical m e

theorem lt_iff_place_lt {a b : Binary} (ha : Held a) (hb : Held b) :
    (unpacked a).lt (unpacked b) = true ↔ place a < place b := by
  rcases a with _ | s | ⟨s, m, e⟩
  · exact ha.elim
  · rcases b with _ | s' | ⟨s', n, f⟩
    · exact hb.elim
    · cases s <;> cases s' <;> decide
    · obtain ⟨hlower, hupper⟩ := Canonical.bounds hb s'
      have hlt : (unpacked (.infinite s)).lt (unpacked (.finite s' n f)) = s := by
        cases s <;> cases n <;> rfl
      rw [hlt]
      cases s with
      | false => exact iff_of_false Bool.false_ne_true (Int.not_lt.mpr (Int.le_of_lt hupper))
      | true => exact iff_of_true rfl hlower
  · rcases b with _ | s' | ⟨s', n, f⟩
    · exact hb.elim
    · obtain ⟨hlower, hupper⟩ := Canonical.bounds ha s
      have hlt : (unpacked (.finite s m e)).lt (unpacked (.infinite s')) = !s' := by
        cases s' <;> cases m <;> cases s <;> rfl
      rw [hlt]
      cases s' with
      | false => exact iff_of_true rfl hupper
      | true => exact iff_of_false Bool.false_ne_true (Int.not_lt.mpr (Int.le_of_lt hlower))
    · exact Canonical.lt_iff ha hb s s'

theorem held_ofFloat {x : Float} (h : ofFloat x ≠ .nan) : Held (ofFloat x) := by
  have hlt : x.toBits.toNat % leadingBit < leadingBit := Nat.mod_lt _ (by decide)
  simp only [ofFloat] at h ⊢
  split
  · next htop =>
    rw [if_pos htop] at h
    split
    · trivial
    · next hfraction => exact h (if_neg hfraction)
  · split
    · exact ⟨by omega, Int.le_refl _, by decide, fun h => absurd h (Int.lt_irrefl _)⟩
    · exact ⟨by omega, by unfold leastExponent; omega, by omega, fun _ => Nat.le_add_right _ _⟩

theorem place_ofFloat {x : Float} (h : ofFloat x ≠ .nan) :
    place (ofFloat x) =
      signed (x.toBits.toNat / signBit == 1) (x.toBits.toNat % signBit : Nat) := by
  simp only [ofFloat] at h ⊢
  split
  · next htop =>
    rw [if_pos htop] at h
    split
    · refine congrArg (signed _) ?_
      unfold leadingBit signBit at *
      omega
    · next hfraction => exact absurd (if_neg hfraction) h
  · split
    · refine congrArg (signed _) ?_
      unfold weight leadingBit signBit leastExponent at *
      omega
    · refine congrArg (signed _) ?_
      unfold weight leadingBit signBit leastExponent at *
      omega

end Decimal.Binary

open Decimal.Binary (place)

variable {x y : Float}

theorem isNaN_eq (x : Float) : x.isNaN = decide (Binary.ofFloat x = .nan) := by
  have hnan : x.isNaN = (Binary.ofFloat x).unpacked.isNaN :=
    congrArg UnpackedFloat.isNaN (Decimal.Binary.unpack_eq x)
  rw [hnan]
  rcases Binary.ofFloat x with _ | s | ⟨s, _ | m, e⟩ <;> rfl

theorem ofFloat_eq_nan (h : x.isNaN = true) : Binary.ofFloat x = .nan :=
  of_decide_eq_true ((isNaN_eq x).symm.trans h)

theorem ofFloat_ne_nan (h : x.isNaN = false) : Binary.ofFloat x ≠ .nan :=
  of_decide_eq_false ((isNaN_eq x).symm.trans h)

theorem lt_iff_unpacked_lt :
    x < y ↔ (Binary.ofFloat x).unpacked.lt (Binary.ofFloat y).unpacked = true := by
  rw [← Decimal.Binary.unpack_eq, ← Decimal.Binary.unpack_eq]
  change decide _ = true ↔ _
  rw [decide_eq_true_iff]
  rfl

theorem lt_iff_place_lt (hx : x.isNaN = false) (hy : y.isNaN = false) :
    x < y ↔ place (Binary.ofFloat x) < place (Binary.ofFloat y) :=
  lt_iff_unpacked_lt.trans <| Decimal.Binary.lt_iff_place_lt
    (Decimal.Binary.held_ofFloat (ofFloat_ne_nan hx))
    (Decimal.Binary.held_ofFloat (ofFloat_ne_nan hy))

theorem not_lt_of_isNaN (h : x.isNaN = true ∨ y.isNaN = true) : ¬x < y := by
  rw [lt_iff_unpacked_lt]
  rcases h with h | h
  · rw [ofFloat_eq_nan h]
    exact Bool.false_ne_true
  · rw [ofFloat_eq_nan h]
    rcases Binary.ofFloat x with _ | s | ⟨s, _ | m, e⟩ <;> exact Bool.false_ne_true

theorem floatKey_of_isNaN (h : x.isNaN = true) : floatKey x = -(2 * signBit : Nat) := by
  simp only [floatKey, ofFloat_eq_nan h]

theorem floatKey_of_number (h : x.isNaN = false) :
    floatKey x =
      if x.toBits.toNat < signBit then (x.toBits.toNat : Int)
      else (signBit : Int) - 1 - x.toBits.toNat := by
  unfold floatKey
  split
  · next hnan => exact absurd hnan (ofFloat_ne_nan h)
  · rfl

theorem place_of_number (h : x.isNaN = false) :
    place (Binary.ofFloat x) =
      if x.toBits.toNat < signBit then (x.toBits.toNat : Int)
      else (signBit : Int) - x.toBits.toNat := by
  have hlt := x.toBits.toNat_lt
  rw [Decimal.Binary.place_ofFloat (ofFloat_ne_nan h)]
  by_cases hsign : x.toBits.toNat < signBit
  · rw [if_pos hsign, Nat.div_eq_of_lt hsign, Nat.mod_eq_of_lt hsign]
    rfl
  · have hneg : x.toBits.toNat / signBit = 1 := by
      unfold signBit at *
      omega
    rw [if_neg hsign, hneg]
    change -((x.toBits.toNat % signBit : Nat) : Int) = _
    unfold signBit at *
    omega

theorem toNat_toBits_inj : x.toBits.toNat = y.toBits.toNat ↔ x = y :=
  UInt64.toNat_inj.trans Float.toBits_inj

/-- Only one double is not a number. -/
theorem eq_of_isNaN (hx : x.isNaN = true) (hy : y.isNaN = true) : x = y := by
  rw [Float.isNaN_eq_decide_eq_nan, decide_eq_true_iff] at hx hy
  rw [hx, hy]

theorem floatKey_lt_of_isNaN (hx : x.isNaN = true) (hy : y.isNaN = false) :
    floatKey x < floatKey y := by
  have hlt := y.toBits.toNat_lt
  rw [floatKey_of_isNaN hx, floatKey_of_number hy]
  unfold signBit
  split <;> omega

theorem floatKey_inj (h : floatKey x = floatKey y) : x = y := by
  cases hx : x.isNaN with
  | true =>
    cases hy : y.isNaN with
    | true => exact eq_of_isNaN hx hy
    | false => exact absurd h (Int.ne_of_lt (floatKey_lt_of_isNaN hx hy))
  | false =>
    cases hy : y.isNaN with
    | true => exact absurd h.symm (Int.ne_of_lt (floatKey_lt_of_isNaN hy hx))
    | false =>
      rw [floatKey_of_number hx, floatKey_of_number hy] at h
      apply toNat_toBits_inj.mp
      split at h <;> split at h <;> omega

theorem eq_negZero_iff : x = -0.0 ↔ x.toBits.toNat = signBit := by
  have hbits : (-0.0 : Float).toBits.toNat = signBit := by decide +kernel
  rw [← hbits, toNat_toBits_inj]

theorem eq_posZero_iff : x = 0.0 ↔ x.toBits.toNat = 0 := by
  have hbits : (0.0 : Float).toBits.toNat = 0 := by decide +kernel
  rw [← hbits, toNat_toBits_inj]

theorem floatKey_lt_iff_of_number (hx : x.isNaN = false) (hy : y.isNaN = false) :
    floatKey x < floatKey y ↔ x < y ∨ x = -0.0 ∧ y = 0.0 := by
  have hxlt := x.toBits.toNat_lt
  have hylt := y.toBits.toNat_lt
  rw [lt_iff_place_lt hx hy, place_of_number hx, place_of_number hy, floatKey_of_number hx,
    floatKey_of_number hy, eq_negZero_iff, eq_posZero_iff]
  unfold signBit
  split <;> split <;> omega

theorem floatKey_lt_iff : floatKey x < floatKey y ↔ TotallyBelow x y := by
  constructor
  · intro h
    cases hx : x.isNaN with
    | true =>
      cases hy : y.isNaN with
      | true =>
        rw [eq_of_isNaN hx hy] at h
        exact absurd h (Int.lt_irrefl _)
      | false => exact .nan hx hy
    | false =>
      cases hy : y.isNaN with
      | true => exact absurd h (Int.lt_asymm (floatKey_lt_of_isNaN hy hx))
      | false =>
        rcases (floatKey_lt_iff_of_number hx hy).mp h with hlt | ⟨hx, hy⟩
        · exact .less hlt
        · exact .zeros hx hy
  · rintro (h | ⟨rfl, rfl⟩ | ⟨hx, hy⟩)
    · have hx : x.isNaN = false := eq_false_of_ne_true fun hx => not_lt_of_isNaN (Or.inl hx) h
      have hy : y.isNaN = false := eq_false_of_ne_true fun hy => not_lt_of_isNaN (Or.inr hy) h
      exact (floatKey_lt_iff_of_number hx hy).mpr (Or.inl h)
    · decide +kernel
    · exact floatKey_lt_of_isNaN hx hy

theorem order_eq_lt_iff : Scalar.order x y = .lt ↔ TotallyBelow x y :=
  Int.compare_eq_lt.trans floatKey_lt_iff

theorem order_eq_eq_iff : Scalar.order x y = .eq ↔ x = y :=
  Int.compare_eq_eq.trans ⟨floatKey_inj, congrArg floatKey⟩

end DependencyAtlas
