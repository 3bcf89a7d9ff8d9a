import ExpenseTracker.Core.Bytes
import ExpenseTracker.Core.Rounding

/-!
# Amounts in statement texts

An amount reaches the database as `std::to_string(double)`: six decimals,
correctly rounded. There a `DECIMAL(10, 2)` column rounds it to cents, half
away from zero, and a `DOUBLE` column reads it as the nearest double.

* `micros_ofCents`: the six-decimal text of the double nearest to `k` cents is
  `k` cents exactly, for every `k` below 10^10.
* `roundCents_micros`, `ofMicros_micros`: both kinds of column give it back.
-/
namespace ExpenseTracker.L1.Amount

open ExpenseTracker.Core

/-- The number `std::to_string(double)` prints, in millionths. -/
def micros (x : Double) : ℤ := roundEven (x.val * 10 ^ 6)

/-- A number below 10^6 with its leading zeros. -/
def sixDigits (n : ℕ) : Bytes := List.replicate (6 - (natText n).length) 48 ++ natText n

/-- `std::to_string(double)`. -/
def doubleText (x : Double) : Bytes :=
  let m := (micros x).natAbs
  (if x.val < 0 then [45] else []) ++ natText (m / 10 ^ 6) ++ ascii "." ++ sixDigits (m % 10 ^ 6)

/-- `DECIMAL(10, 2)`: to cents, half away from zero. -/
def roundCents (m : ℤ) : ℤ := m.sign * ((m.natAbs + 5000) / 10000 : ℕ)

/-- `DOUBLE` from a decimal literal. -/
def ofMicros (m : ℤ) : Double := Double.ofRat (m / 10 ^ 6)

/-- The double nearest to `k` cents. -/
def ofCents (k : ℤ) : Double := Double.ofRat (k / 100)

/-- Below 10^8 a double is within `2 ^ -27` of the decimal it was read from. -/
theorem abs_nearest_sub_le_of_lt {q : ℚ} (h : |q| < 10 ^ 8) : |nearest q - q| ≤ 2 ^ (-27 : ℤ) := by
  have hbig : (10 : ℚ) ^ 8 < 2 ^ (27 : ℤ) := by norm_num
  exact abs_nearest_sub_le_two_pow (h.trans hbig) (by norm_num) (by norm_num)

theorem abs_cents_lt {k : ℤ} (hk : |k| < 10 ^ 10) : |(k : ℚ) / 100| < 10 ^ 8 := by
  rw [abs_div, abs_of_pos (by norm_num : (0 : ℚ) < 100), div_lt_iff₀ (by norm_num)]
  exact_mod_cast hk

/-- **The six-decimal text of an amount.** -/
theorem micros_ofCents {k : ℤ} (hk : |k| < 10 ^ 10) : micros (ofCents k) = k * 10 ^ 4 := by
  refine roundEven_of_near ?_
  have herr := abs_nearest_sub_le_of_lt (abs_cents_lt hk)
  have he : nearest ((k : ℚ) / 100) * 10 ^ 6 - ((k * 10 ^ 4 : ℤ) : ℚ) =
      (nearest ((k : ℚ) / 100) - (k : ℚ) / 100) * 10 ^ 6 := by
    push_cast; ring
  rw [show (ofCents k).val = nearest ((k : ℚ) / 100) from rfl, he, abs_mul]
  have hsmall : (2 : ℚ) ^ (-27 : ℤ) * |(10 : ℚ) ^ 6| < 1 / 2 := by norm_num
  exact lt_of_le_of_lt (mul_le_mul_of_nonneg_right herr (abs_nonneg _)) hsmall

theorem roundCents_mul (k : ℤ) : roundCents (k * 10 ^ 4) = k := by
  have h : ((k * 10 ^ 4).natAbs + 5000) / 10000 = k.natAbs := by
    rw [Int.natAbs_mul, show (10 ^ 4 : ℤ).natAbs = 10000 from rfl]
    omega
  rw [roundCents, h, Int.sign_mul, show Int.sign (10 ^ 4) = 1 from rfl, mul_one]
  exact Int.sign_mul_natAbs k

theorem roundCents_micros {k : ℤ} (hk : |k| < 10 ^ 10) : roundCents (micros (ofCents k)) = k := by
  rw [micros_ofCents hk, roundCents_mul]

theorem ofMicros_micros {k : ℤ} (hk : |k| < 10 ^ 10) : ofMicros (micros (ofCents k)) = ofCents k := by
  rw [micros_ofCents hk]
  refine congrArg Double.ofRat ?_
  push_cast
  ring

end ExpenseTracker.L1.Amount
