import Mathlib.Algebra.Order.Field.Rat
import Mathlib.Data.Int.Log
import Mathlib.Data.Rat.Floor
import Mathlib.Tactic.Linarith
import Mathlib.Tactic.NormNum

/-! Quotients of natural numbers, rounded to the nearest, and quotients in binary64. -/
namespace Rounding

def roundDiv (a d : Nat) : Nat := (a + d / 2) / d

theorem roundDiv_bounds (a : Nat) {d : Nat} (positive : 0 < d) :
    2 * a ≤ 2 * (d * roundDiv a d) + d ∧ 2 * (d * roundDiv a d) ≤ 2 * a + d := by
  have split : d * roundDiv a d + (a + d / 2) % d = a + d / 2 := Nat.div_add_mod _ d
  have rest : (a + d / 2) % d < d := Nat.mod_lt _ positive
  constructor <;> omega

theorem roundDiv_error (a : Nat) {d : Nat} (positive : 0 < d) :
    |(a : ℚ) / d - roundDiv a d| ≤ 1 / 2 := by
  have divisor : (0 : ℚ) < d := by exact_mod_cast positive
  have bounds := roundDiv_bounds a positive
  have above : 2 * (a : ℚ) ≤ 2 * (d * roundDiv a d) + d := by exact_mod_cast bounds.1
  have below : 2 * ((d : ℚ) * roundDiv a d) ≤ 2 * a + d := by exact_mod_cast bounds.2
  have quotient : (a : ℚ) / d * d = a := div_mul_cancel₀ _ divisor.ne'
  rw [abs_sub_le_iff]
  constructor
  · have scaled : ((a : ℚ) / d - roundDiv a d) * d ≤ 1 / 2 * d := by linarith
    exact le_of_mul_le_mul_right scaled divisor
  · have scaled : ((roundDiv a d : ℚ) - a / d) * d ≤ 1 / 2 * d := by linarith
    exact le_of_mul_le_mul_right scaled divisor

/-! The same for integers of either sign: rounding half up, and half away from zero. -/

def roundHalfUp (t h : ℤ) : ℤ := (t + h) / (2 * h)

def roundHalfAway (t h : ℤ) : ℤ :=
  if 0 ≤ t then (t + h).tdiv (2 * h) else -((-t + h).tdiv (2 * h))

theorem roundHalfUp_error (t : ℤ) {h : ℤ} (positive : 0 < h) :
    |(roundHalfUp t h : ℚ) - t / (2 * h)| ≤ 1 / 2 := by
  have divisor : (0 : ℚ) < 2 * h := by exact_mod_cast (by omega : 0 < 2 * h)
  have split := Int.mul_ediv_add_emod (t + h) (2 * h)
  have rest := Int.emod_nonneg (t + h) (by omega : 2 * h ≠ 0)
  have rest_lt := Int.emod_lt_of_pos (t + h) (by omega : 0 < 2 * h)
  have below : (2 * h * roundHalfUp t h : ℚ) ≤ t + h := by
    exact_mod_cast (by unfold roundHalfUp; omega : 2 * h * roundHalfUp t h ≤ t + h)
  have above : (t + h : ℚ) ≤ 2 * h * roundHalfUp t h + 2 * h := by
    exact_mod_cast (by unfold roundHalfUp; omega : t + h ≤ 2 * h * roundHalfUp t h + 2 * h)
  rw [abs_sub_le_iff, sub_le_iff_le_add, sub_le_iff_le_add, ← sub_le_iff_le_add', le_div_iff₀ divisor,
    div_le_iff₀ divisor]
  constructor <;> linarith

theorem roundHalfAway_error (t : ℤ) {h : ℤ} (positive : 0 < h) :
    |(roundHalfAway t h : ℚ) - t / (2 * h)| ≤ 1 / 2 := by
  unfold roundHalfAway
  split
  · rw [Int.tdiv_eq_ediv_of_nonneg (by omega)]
    exact roundHalfUp_error t positive
  · rw [Int.tdiv_eq_ediv_of_nonneg (by omega)]
    have reflected := roundHalfUp_error (-t) positive
    rw [abs_sub_comm] at reflected
    unfold roundHalfUp at reflected
    push_cast at reflected ⊢
    rwa [neg_div, sub_eq_add_neg, add_comm, ← sub_eq_add_neg] at reflected

/-! Quotients of integers as binary64 has them, where they are normal, and their whole parts. -/

/-- The nearest integer, an even one where two are. -/
def roundEven (x : ℚ) : ℤ :=
  if x - ⌊x⌋ < 1 / 2 then ⌊x⌋
  else if 1 / 2 < x - ⌊x⌋ then ⌊x⌋ + 1
  else if ⌊x⌋ % 2 = 0 then ⌊x⌋ else ⌊x⌋ + 1

/-- The last place of a positive number with 53 digits. -/
def ulp (x : ℚ) : ℚ := 2 ^ (Int.log 2 x - 52)

def magnitude (x : ℚ) : ℚ := roundEven (x / ulp x) * ulp x

def binary64 (x : ℚ) : ℚ := if x < 0 then -magnitude (-x) else magnitude x

def truncate (x : ℚ) : ℤ := if x < 0 then -⌊-x⌋ else ⌊x⌋

theorem roundEven_error (x : ℚ) : |roundEven x - x| ≤ 1 / 2 := by
  have floor := Int.floor_le x
  have next := Int.lt_floor_add_one x
  unfold roundEven
  rw [abs_sub_le_iff]
  split
  next low => constructor <;> linarith
  next =>
    split
    next high => push_cast; constructor <;> linarith
    next => split <;> push_cast <;> constructor <;> linarith

theorem roundEven_int (n : ℤ) : roundEven n = n := by
  unfold roundEven
  rw [Int.floor_intCast, sub_self, if_pos (by norm_num)]

theorem ulp_pos (x : ℚ) : 0 < ulp x := zpow_pos (by norm_num) _

theorem ulp_le {x : ℚ} (positive : 0 < x) : ulp x ≤ x / 2 ^ 52 := by
  have power : (2 : ℚ) ^ Int.log 2 x ≤ x := by
    exact_mod_cast Int.zpow_log_le_self (R := ℚ) one_lt_two positive
  unfold ulp
  rw [zpow_sub₀ (by norm_num)]
  exact div_le_div_of_nonneg_right power (by positivity)

theorem magnitude_error {x : ℚ} (positive : 0 < x) : |magnitude x - x| ≤ x / 2 ^ 53 := by
  have unit := ulp_pos x
  have exact_ : x / ulp x * ulp x = x := div_mul_cancel₀ x unit.ne'
  have error := roundEven_error (x / ulp x)
  have scaled : magnitude x - x = (roundEven (x / ulp x) - x / ulp x) * ulp x := by
    rw [sub_mul, exact_]
    rfl
  rw [scaled, abs_mul, abs_of_pos unit]
  calc |(roundEven (x / ulp x) : ℚ) - x / ulp x| * ulp x ≤ 1 / 2 * ulp x :=
        mul_le_mul_of_nonneg_right error unit.le
    _ ≤ 1 / 2 * (x / 2 ^ 52) := mul_le_mul_of_nonneg_left (ulp_le positive) (by norm_num)
    _ = x / 2 ^ 53 := by ring

theorem magnitude_zero : magnitude 0 = 0 := by
  unfold magnitude
  rw [zero_div, ← Int.cast_zero, roundEven_int, Int.cast_zero, zero_mul]

theorem magnitude_nat {q : Nat} (small : q < 2 ^ 53) : magnitude q = q := by
  rcases Nat.eq_zero_or_pos q with zero | positive
  · rw [zero, Nat.cast_zero, magnitude_zero]
  have digits : Nat.log 2 q < 53 := Nat.log_lt_of_lt_pow positive.ne' small
  have unit : ulp q = (2 ^ (52 - Nat.log 2 q) : ℚ)⁻¹ := by
    unfold ulp
    rw [Int.log_natCast, ← zpow_natCast, ← zpow_neg]
    congr 1
    omega
  have whole : (q : ℚ) / ulp q = ((q * 2 ^ (52 - Nat.log 2 q) : ℤ) : ℚ) := by
    rw [unit, div_inv_eq_mul]
    push_cast
    rfl
  unfold magnitude
  rw [whole, roundEven_int, ← whole]
  exact div_mul_cancel₀ _ (ulp_pos _).ne'

/-- Rounding a quotient does not bring it to another whole part: what is not whole is
further from the next whole number than the rounding error. -/
theorem floor_magnitude {a d : Nat} (small : a < 2 ^ 52) (positive : 0 < d) :
    ⌊magnitude ((a : ℚ) / d)⌋ = ((a / d : Nat) : ℤ) := by
  have whole : (d : ℚ) * (a / d : Nat) + (a % d : Nat) = a := by exact_mod_cast Nat.div_add_mod a d
  have divisor : (0 : ℚ) < d := by exact_mod_cast positive
  rcases Nat.eq_zero_or_pos (a % d) with exact_ | rest
  · have quotient : (a : ℚ) / d = (a / d : Nat) := by
      rw [exact_, Nat.cast_zero, add_zero] at whole
      rw [← whole, mul_div_cancel_left₀ _ divisor.ne']
    have short : a / d < 2 ^ 53 := (Nat.div_le_self a d).trans_lt (small.trans (by norm_num))
    rw [quotient, magnitude_nat short, Int.floor_natCast]
  have nonzero : 0 < a := Nat.pos_of_ne_zero fun zero => by simp [zero] at rest
  have place : (0 : ℚ) < (d : ℚ)⁻¹ := inv_pos.mpr divisor
  have split : (a : ℚ) / d = (a / d : Nat) + (a % d : Nat) * (d : ℚ)⁻¹ := by
    rw [div_eq_mul_inv, ← whole, add_mul, mul_comm (d : ℚ), mul_assoc, mul_inv_cancel₀ divisor.ne', mul_one]
  have low : (d : ℚ)⁻¹ ≤ (a % d : Nat) * (d : ℚ)⁻¹ :=
    le_mul_of_one_le_left place.le (by exact_mod_cast rest)
  have high : ((a % d : Nat) : ℚ) * (d : ℚ)⁻¹ ≤ 1 - (d : ℚ)⁻¹ := by
    have next : ((a % d : Nat) : ℚ) + 1 ≤ d := by exact_mod_cast Nat.mod_lt a positive
    have scaled := mul_le_mul_of_nonneg_right next place.le
    rw [mul_inv_cancel₀ divisor.ne', add_mul, one_mul] at scaled
    linarith
  have close : (a : ℚ) / d / 2 ^ 53 ≤ (d : ℚ)⁻¹ / 2 := by
    have bound : (a : ℚ) ≤ 2 ^ 52 := by exact_mod_cast small.le
    have scaled := mul_le_mul_of_nonneg_right bound place.le
    rw [div_eq_mul_inv (a : ℚ)]
    linarith
  have error := abs_sub_le_iff.mp (magnitude_error (div_pos (Nat.cast_pos.mpr nonzero) divisor))
  rw [Int.floor_eq_iff, Int.cast_natCast]
  constructor
  · linarith [error.2]
  · linarith [error.1]

theorem truncate_nonneg {x : ℚ} (nonneg : 0 ≤ x) : truncate x = ⌊x⌋ := if_neg nonneg.not_gt

theorem truncate_neg (x : ℚ) : truncate (-x) = -truncate x := by
  rcases lt_trichotomy x 0 with negative | zero | positive
  · unfold truncate
    rw [if_neg (by linarith), if_pos negative, neg_neg]
  · rw [zero, neg_zero]
    rfl
  · unfold truncate
    rw [if_pos (by linarith), if_neg positive.not_gt, neg_neg]

theorem binary64_nonneg {x : ℚ} (nonneg : 0 ≤ x) : binary64 x = magnitude x := if_neg nonneg.not_gt

theorem binary64_neg (x : ℚ) : binary64 (-x) = -binary64 x := by
  rcases lt_trichotomy x 0 with negative | zero | positive
  · unfold binary64
    rw [if_neg (by linarith), if_pos negative, neg_neg]
  · rw [zero, neg_zero, binary64_nonneg le_rfl, magnitude_zero, neg_zero]
  · unfold binary64
    rw [if_pos (by linarith), if_neg positive.not_gt, neg_neg]

theorem truncate_binary64 {a : ℤ} {d : Nat} (small : a.natAbs < 2 ^ 52) (positive : 0 < d) :
    truncate (binary64 ((a : ℚ) / d)) = a.tdiv d := by
  have natural (n : Nat) (short : n < 2 ^ 52) : truncate (binary64 ((n : ℚ) / d)) = ((n / d : Nat) : ℤ) := by
    have floor := floor_magnitude short positive
    have nonneg : 0 ≤ magnitude ((n : ℚ) / d) := Int.floor_nonneg.mp (by rw [floor]; positivity)
    rw [binary64_nonneg (by positivity), truncate_nonneg nonneg, floor]
  obtain ⟨n, rfl | rfl⟩ := a.eq_nat_or_neg
  · rw [Int.cast_natCast, natural n small]
    rfl
  · rw [Int.cast_neg, Int.cast_natCast, neg_div, binary64_neg, truncate_neg,
      natural n (by rwa [Int.natAbs_neg] at small), Int.neg_tdiv]
    rfl

end Rounding
