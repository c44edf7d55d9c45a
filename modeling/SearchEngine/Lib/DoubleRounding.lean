import Mathlib.Data.Int.Log
import Mathlib.Data.Rat.Floor
import Mathlib.Tactic.Linarith

/-!
# Rounding to a double

The nearest number with 53 binary digits, as operations on `double` round their exact
results, for results that are zero or in the range of the normalized numbers.
-/

namespace SearchEngine.Lib

/-- The nearest integer, of two the even one. -/
def roundEven (x : ℚ) : ℤ :=
  if x - ⌊x⌋ < 1 / 2 then ⌊x⌋
  else if x - ⌊x⌋ = 1 / 2 ∧ ⌊x⌋ % 2 = 0 then ⌊x⌋
  else ⌊x⌋ + 1

theorem floor_le_roundEven (x : ℚ) : ⌊x⌋ ≤ roundEven x := by
  unfold roundEven
  split
  · exact le_rfl
  split
  · exact le_rfl
  · omega

theorem roundEven_le (x : ℚ) : roundEven x ≤ ⌊x⌋ + 1 := by
  unfold roundEven
  split
  · omega
  split
  · omega
  · exact le_rfl

theorem roundEven_mono {x y : ℚ} (le : x ≤ y) : roundEven x ≤ roundEven y := by
  rcases (Int.floor_mono le).eq_or_lt with same | less
  · -- both lie between the same integers
    have closer : x - ⌊x⌋ ≤ y - ⌊y⌋ := by
      rw [same]
      linarith
    have bound := floor_le_roundEven y
    unfold roundEven at bound ⊢
    split
    · rwa [same]
    rename_i far
    have farther : ¬ y - ⌊y⌋ < 1 / 2 := by linarith
    rw [if_neg farther] at bound ⊢
    split
    · rwa [same]
    rename_i odd
    rw [if_neg]
    · omega
    · rintro ⟨half, even⟩
      exact odd ⟨by linarith, by omega⟩
  · have above := floor_le_roundEven y
    have below := roundEven_le x
    omega

theorem roundEven_intCast (n : ℤ) : roundEven n = n := by
  unfold roundEven
  rw [Int.floor_intCast, if_pos (by norm_num)]

/-- How far apart the doubles next to a number are. -/
def spacing (x : ℚ) : ℚ := 2 ^ (Int.log 2 x - 52)

/-- The double nearest to a number. -/
def toDouble (x : ℚ) : ℚ := roundEven (x / spacing x) * spacing x

theorem spacing_pos (x : ℚ) : 0 < spacing x := zpow_pos (by norm_num) _

/-- So many spacings of a number make up the next power of two. -/
theorem digits_mul_spacing (x : ℚ) (digits : ℤ) :
    2 ^ digits * spacing x = 2 ^ (Int.log 2 x + (digits - 52)) := by
  rw [spacing, ← zpow_add₀ (by norm_num)]
  congr 1
  omega

theorem toDouble_zero : toDouble 0 = 0 := by
  have none : roundEven 0 = 0 := roundEven_intCast 0
  rw [toDouble, zero_div, none, Int.cast_zero, zero_mul]

/-- A rounded number does not pass the powers of two around it. -/
theorem toDouble_bounds {x : ℚ} (positive : 0 < x) :
    2 ^ Int.log 2 x ≤ toDouble x ∧ toDouble x ≤ 2 ^ (Int.log 2 x + 1) := by
  have gap := spacing_pos x
  have low : (2 : ℚ) ^ Int.log 2 x = ((2 ^ 52 : ℤ) : ℚ) * spacing x := by
    have digits := digits_mul_spacing x 52
    rw [sub_self, add_zero] at digits
    rw [← digits]
    norm_num
  have high : (2 : ℚ) ^ (Int.log 2 x + 1) = ((2 ^ 53 : ℤ) : ℚ) * spacing x := by
    have digits := digits_mul_spacing x 53
    rw [show (53 : ℤ) - 52 = 1 by norm_num] at digits
    rw [← digits]
    norm_num
  have above : ((2 ^ 52 : ℤ) : ℚ) ≤ x / spacing x := by
    rw [le_div_iff₀ gap, ← low]
    exact Int.zpow_log_le_self (by norm_num) positive
  have below : x / spacing x ≤ ((2 ^ 53 : ℤ) : ℚ) := by
    rw [div_le_iff₀ gap, ← high]
    exact (Int.lt_zpow_succ_log_self (by norm_num) x).le
  have least := roundEven_mono above
  have most := roundEven_mono below
  rw [roundEven_intCast] at least most
  rw [low, high, toDouble]
  exact ⟨mul_le_mul_of_nonneg_right (by exact_mod_cast least) gap.le,
    mul_le_mul_of_nonneg_right (by exact_mod_cast most) gap.le⟩

theorem toDouble_nonneg {x : ℚ} (nonneg : 0 ≤ x) : 0 ≤ toDouble x := by
  rcases nonneg.eq_or_lt with rfl | positive
  · rw [toDouble_zero]
  · have power : (0 : ℚ) < 2 ^ Int.log 2 x := zpow_pos (by norm_num) _
    exact power.le.trans (toDouble_bounds positive).1

/-- Rounding keeps the order. -/
theorem toDouble_mono {x y : ℚ} (nonneg : 0 ≤ x) (le : x ≤ y) : toDouble x ≤ toDouble y := by
  rcases nonneg.eq_or_lt with rfl | positive
  · rw [toDouble_zero]
    exact toDouble_nonneg le
  rcases (Int.log_mono_right positive le : Int.log 2 x ≤ Int.log 2 y).eq_or_lt with same | less
  · have spaced : spacing x = spacing y := by rw [spacing, same, spacing]
    have gap := spacing_pos y
    rw [toDouble, toDouble, spaced]
    have rounded := roundEven_mono ((div_le_div_iff_of_pos_right gap).mpr le)
    exact mul_le_mul_of_nonneg_right (by exact_mod_cast rounded) gap.le
  · -- a power of two lies between them
    have power : (2 : ℚ) ^ (Int.log 2 x + 1) ≤ 2 ^ Int.log 2 y :=
      zpow_le_zpow_right₀ (by norm_num) (by omega)
    exact (toDouble_bounds positive).2.trans (power.trans (toDouble_bounds (positive.trans_le le)).1)

end SearchEngine.Lib
