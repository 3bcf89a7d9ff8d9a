import Mathlib.Data.Int.Log
import Mathlib.Data.Rat.Floor
import Mathlib.Algebra.Order.Round
import Mathlib.Tactic.Linarith
import Mathlib.Tactic.NormNum
import Mathlib.Tactic.Ring
import Mathlib.Tactic.FieldSimp
import Mathlib.Tactic.Positivity
import Mathlib.Algebra.Order.Field.Power

/-!
# Finite binary64 numbers as rationals

A finite `double` is the rational it stands for. `nearest q` is the double a
decimal text of value `q` reads as: `q` rounded half to even on the grid of
its binade (53 significant bits, exponent at least -1074), clamped to the
largest finite double. The sign of a zero is not kept.

* `nearest_idem`: a double is its own nearest double, so `Double` (the fixed
  points) contains every value of `nearest`.
* `abs_nearest_sub_le`: the rounding error is at most half a unit in the last
  place.
* `ceil_nearest_div`: the ceiling of a quotient of integers is not changed by rounding it.
* `roundEven_of_near`: a number closer than one half to an integer rounds to
  it.
-/
namespace ExpenseTracker.Core

/-- Round to an integer, ties to even. -/
def roundEven (q : ℚ) : ℤ :=
  if q - ⌊q⌋ < 1 / 2 then ⌊q⌋
  else if 1 / 2 < q - ⌊q⌋ then ⌊q⌋ + 1
  else if ⌊q⌋ % 2 = 0 then ⌊q⌋ else ⌊q⌋ + 1

theorem abs_roundEven_sub_le (q : ℚ) : |(roundEven q : ℚ) - q| ≤ 1 / 2 := by
  have h0 := Int.floor_le q
  have h1 := Int.lt_floor_add_one q
  unfold roundEven
  rw [abs_le]
  split
  · constructor <;> linarith
  split
  · push_cast; constructor <;> linarith
  split
  · constructor <;> linarith
  · push_cast; constructor <;> linarith

/-- The integers within one half are the candidates. -/
theorem roundEven_of_near {q : ℚ} {n : ℤ} (h : |q - n| < 1 / 2) : roundEven q = n := by
  have hr := abs_roundEven_sub_le q
  rw [abs_lt] at h
  rw [abs_le] at hr
  have h1 : (roundEven q : ℚ) < n + 1 := by linarith
  have h2 : (n : ℚ) < roundEven q + 1 := by linarith
  have h1' : roundEven q < n + 1 := by exact_mod_cast h1
  have h2' : n < roundEven q + 1 := by exact_mod_cast h2
  omega

theorem roundEven_intCast (n : ℤ) : roundEven (n : ℚ) = n :=
  roundEven_of_near (by simp)

theorem abs_roundEven_le {q : ℚ} {b : ℤ} (h : |q| ≤ b) : |roundEven q| ≤ b := by
  have hr := abs_roundEven_sub_le q
  rw [abs_le] at h hr
  have h1 : (roundEven q : ℚ) < b + 1 := by linarith
  have h2 : (-b : ℚ) < roundEven q + 1 := by linarith
  have h1' : roundEven q < b + 1 := by exact_mod_cast h1
  have h2' : -b < roundEven q + 1 := by exact_mod_cast h2
  rw [abs_le]
  omega

/-! ## The grid -/

/-- The exponent of the last place of `q`'s binade. -/
def ulpExp (q : ℚ) : ℤ := max (Int.log 2 |q| - 52) (-1074)

/-- The largest finite double. -/
def maxDouble : ℚ := ((2 ^ 53 - 1 : ℤ) : ℚ) * 2 ^ (971 : ℤ)

/-- Clamp to the finite range. -/
def clamp (q : ℚ) : ℚ := max (-maxDouble) (min q maxDouble)

def nearest (q : ℚ) : ℚ :=
  if q = 0 then 0 else clamp (roundEven (q / 2 ^ ulpExp q) * 2 ^ ulpExp q)

theorem maxDouble_pos : 0 < maxDouble :=
  mul_pos (by norm_num) (zpow_pos (by norm_num) _)

theorem clamp_of_le {q : ℚ} (h : |q| ≤ maxDouble) : clamp q = q := by
  rw [abs_le] at h
  rw [clamp, min_eq_left h.2, max_eq_right h.1]

theorem abs_clamp_le (q : ℚ) : |clamp q| ≤ maxDouble := by
  have := maxDouble_pos
  rw [abs_le, clamp]
  exact ⟨le_max_left _ _, max_le (by linarith) (min_le_right _ _)⟩

theorem clamp_cases (q : ℚ) : clamp q = q ∨ clamp q = maxDouble ∨ clamp q = -maxDouble := by
  unfold clamp
  rcases min_choice q maxDouble with h | h <;> rw [h] <;>
    rcases max_choice (-maxDouble) _ with h' | h' <;> rw [h'] <;> simp

/-- Clamping moves no further from a number in range. -/
theorem abs_clamp_sub_le {y q : ℚ} (h : |q| ≤ maxDouble) : |clamp y - q| ≤ |y - q| := by
  obtain ⟨hq1, hq2⟩ := abs_le.mp h
  rcases le_total y maxDouble with h1 | h1
  · rcases le_total (-maxDouble) y with h2 | h2
    · rw [clamp_of_le (abs_le.mpr ⟨h2, h1⟩)]
    · rw [clamp, min_eq_left h1, max_eq_left h2, abs_of_nonpos (by linarith),
        abs_of_nonpos (by linarith)]
      linarith
  · have := maxDouble_pos
    rw [clamp, min_eq_right h1, max_eq_right (by linarith), abs_of_nonneg (by linarith),
      abs_of_nonneg (by linarith)]
    linarith

theorem abs_lt_zpow_ulpExp (q : ℚ) : |q| < 2 ^ (ulpExp q + 53) := by
  have h := Int.lt_zpow_succ_log_self (b := 2) (by decide) |q|
  refine lt_of_lt_of_le (by exact_mod_cast h) (zpow_le_zpow_right₀ (by norm_num) ?_)
  have := le_max_left (Int.log 2 |q| - 52) (-1074)
  unfold ulpExp
  omega

/-- Half a unit in the last place bounds the rounding error. -/
theorem abs_nearest_sub_le {q : ℚ} (h : |q| ≤ maxDouble) : |nearest q - q| ≤ 2 ^ ulpExp q / 2 := by
  have hu : (0 : ℚ) < 2 ^ ulpExp q := by positivity
  unfold nearest
  split
  · rename_i h0
    subst h0
    rw [sub_zero, abs_zero]
    exact (half_pos hu).le
  refine (abs_clamp_sub_le h).trans ?_
  have he : (roundEven (q / 2 ^ ulpExp q) : ℚ) * 2 ^ ulpExp q - q =
      (roundEven (q / 2 ^ ulpExp q) - q / 2 ^ ulpExp q) * 2 ^ ulpExp q := by
    field_simp
  rw [he, abs_mul, abs_of_pos hu]
  have := abs_roundEven_sub_le (q / 2 ^ ulpExp q)
  calc |(roundEven (q / 2 ^ ulpExp q) : ℚ) - q / 2 ^ ulpExp q| * 2 ^ ulpExp q
      ≤ 1 / 2 * 2 ^ ulpExp q := mul_le_mul_of_nonneg_right this hu.le
    _ = 2 ^ ulpExp q / 2 := by ring

theorem two_pow_le_maxDouble {n : ℤ} (hn : n ≤ 1023) : (2 : ℚ) ^ n ≤ maxDouble := by
  have hpow : (2 : ℚ) ^ n ≤ 2 ^ (1023 : ℤ) := zpow_le_zpow_right₀ (by norm_num) hn
  have hsplit : (2 : ℚ) ^ (1023 : ℤ) = 2 ^ (52 : ℕ) * 2 ^ (971 : ℤ) := by
    rw [← zpow_natCast, ← zpow_add₀ (by norm_num)]
    rfl
  refine hpow.trans ?_
  rw [hsplit, maxDouble]
  exact mul_le_mul_of_nonneg_right (by norm_num) (by positivity)

/-- The rounding error below a power of two. -/
theorem abs_nearest_sub_le_two_pow {q : ℚ} {n : ℤ} (h : |q| < 2 ^ n) (hlo : -1021 ≤ n)
    (hhi : n ≤ 1023) : |nearest q - q| ≤ 2 ^ (n - 54) := by
  rcases eq_or_ne q 0 with rfl | h0
  · have hzero : nearest 0 = 0 := if_pos rfl
    rw [hzero, sub_zero, abs_zero]
    positivity
  have hulp : ulpExp q ≤ n - 53 := by
    have hlog : Int.log 2 |q| < n := by
      refine (Int.lt_zpow_iff_log_lt (by decide) (abs_pos.mpr h0)).mp ?_
      exact_mod_cast h
    unfold ulpExp
    omega
  calc |nearest q - q| ≤ 2 ^ ulpExp q / 2 :=
        abs_nearest_sub_le (h.le.trans (two_pow_le_maxDouble hhi))
    _ ≤ 2 ^ (n - 53) / 2 :=
        div_le_div_of_nonneg_right (zpow_le_zpow_right₀ (by norm_num) hulp) (by norm_num)
    _ = 2 ^ (n - 54) := by
        rw [show n - 53 = n - 54 + 1 by ring, zpow_add₀ (by norm_num), zpow_one]
        ring

/-- Points of a binade's grid with at most 53 bits are doubles. -/
theorem nearest_grid {m e : ℤ} (hm : |m| ≤ 2 ^ 53) (he : -1074 ≤ e)
    (hb : |(m : ℚ) * 2 ^ e| ≤ maxDouble) : nearest (m * 2 ^ e) = m * 2 ^ e := by
  unfold nearest
  split
  · rename_i h0; exact h0.symm
  rename_i h0
  obtain ⟨x, hx⟩ : ∃ x : ℚ, x = m * 2 ^ e := ⟨_, rfl⟩
  rw [← hx] at h0 hb ⊢
  have hxpos : 0 < |x| := abs_pos.mpr h0
  -- it is enough that `x` is an integer multiple of its own last place
  suffices h : ∃ n : ℤ, x / 2 ^ ulpExp x = n by
    obtain ⟨n, hn⟩ := h
    rw [hn, roundEven_intCast, ← hn, div_mul_cancel₀ _ (by positivity), clamp_of_le hb]
  have hpow : (0 : ℚ) < 2 ^ e := zpow_pos (by norm_num) e
  have habs : |x| = |(m : ℚ)| * 2 ^ e := by rw [hx, abs_mul, abs_of_pos hpow]
  rcases lt_or_eq_of_le hm with hlt | heq
  · -- below the top of the binade the last place divides `2 ^ e`
    have hle : ulpExp x ≤ e := by
      have hl : |x| < ((2 : ℕ) : ℚ) ^ (e + 53) := by
        rw [habs, zpow_add₀ (by norm_num : ((2 : ℕ) : ℚ) ≠ 0), mul_comm]
        refine mul_lt_mul_of_pos_left ?_ (by positivity)
        exact_mod_cast hlt
      have := (Int.lt_zpow_iff_log_lt (by decide) hxpos).mp hl
      unfold ulpExp
      exact max_le (by omega) he
    refine ⟨m * 2 ^ (e - ulpExp x).toNat, ?_⟩
    have hnat : ((e - ulpExp x).toNat : ℤ) = e - ulpExp x := Int.toNat_of_nonneg (by omega)
    push_cast
    rw [← zpow_natCast, hnat, zpow_sub₀ (by norm_num), ← mul_div_assoc, ← hx]
  · -- `x` is a power of two, its last place is `2 ^ (e + 1)`
    have hlog : Int.log 2 |x| = e + 53 := by
      have : |x| = ((2 : ℕ) : ℚ) ^ (e + 53) := by
        rw [habs, zpow_add₀ (by norm_num : ((2 : ℕ) : ℚ) ≠ 0), mul_comm]
        congr 1
        exact_mod_cast heq
      rw [this, Int.log_zpow (by decide)]
    have hu : ulpExp x = e + 1 := by
      unfold ulpExp
      rw [hlog, max_eq_left (by omega)]
      omega
    obtain ⟨j, hj⟩ : ∃ j : ℤ, m = 2 * j := by
      rcases abs_choice m with h | h <;> rw [h] at heq
      · exact ⟨2 ^ 52, by omega⟩
      · exact ⟨-2 ^ 52, by omega⟩
    refine ⟨j, ?_⟩
    rw [hu, hx, hj, zpow_add₀ (by norm_num), zpow_one]
    push_cast
    field_simp

theorem nearest_intCast {n : ℤ} (hn : |n| ≤ 2 ^ 53) : nearest n = n := by
  have hmax : (|(n : ℚ)|) ≤ maxDouble := by
    have hpow : |(n : ℚ)| ≤ 2 ^ (53 : ℤ) := by exact_mod_cast hn
    exact hpow.trans (two_pow_le_maxDouble (by norm_num))
  have hgrid := nearest_grid (e := 0) hn (by norm_num) (by simpa using hmax)
  simpa using hgrid

/-- A quotient that is no integer stays away from the integers when it is rounded, so
rounding does not show in its ceiling. -/
theorem ceil_nearest_div {a b n : ℤ} (hb : 0 < b) (hq : |(a : ℚ) / b| < 2 ^ n) (hlo : 0 ≤ n)
    (hhi : n ≤ 52) (hbn : (b : ℚ) < 2 ^ (54 - n)) :
    ⌈nearest ((a : ℚ) / b)⌉ = ⌈(a : ℚ) / b⌉ := by
  have hb' : (0 : ℚ) < b := by exact_mod_cast hb
  obtain ⟨k, hk⟩ : ∃ k, k = ⌈(a : ℚ) / b⌉ := ⟨_, rfl⟩
  obtain ⟨hbelow, habove⟩ := Int.ceil_eq_iff.mp hk.symm
  rw [← hk]
  rcases habove.eq_or_lt with heq | hlt
  · -- the quotient is an integer, and small enough to be a double
    have hsmall : |k| ≤ 2 ^ 53 := by
      rw [heq] at hq
      have hpow : (2 : ℚ) ^ n ≤ 2 ^ (53 : ℤ) := zpow_le_zpow_right₀ (by norm_num) (by omega)
      exact_mod_cast hq.le.trans hpow
    rw [heq, nearest_intCast hsmall, Int.ceil_intCast]
  · have hstep : (k - 1 : ℚ) + 1 / b ≤ a / b ∧ (a : ℚ) / b ≤ k - 1 / b := by
      rw [lt_div_iff₀ hb'] at hbelow
      rw [div_lt_iff₀ hb'] at hlt
      have hbelow' : (k - 1) * b < a := by exact_mod_cast hbelow
      have hlt' : a < k * b := by exact_mod_cast hlt
      have h1 : ((k - 1) * b + 1 : ℚ) ≤ a := by exact_mod_cast hbelow'
      have h2 : (a : ℚ) ≤ k * b - 1 := by exact_mod_cast Int.le_sub_one_of_lt hlt'
      constructor
      · rw [le_div_iff₀ hb', add_mul, one_div, inv_mul_cancel₀ hb'.ne']
        exact h1
      · rw [div_le_iff₀ hb', sub_mul, one_div, inv_mul_cancel₀ hb'.ne']
        exact h2
    have herr := abs_nearest_sub_le_two_pow hq (by omega) (by omega)
    have hfine : (2 : ℚ) ^ (n - 54) < 1 / b := by
      rw [lt_div_iff₀ hb', show n - 54 = -(54 - n) by ring, zpow_neg, inv_mul_lt_iff₀ (by positivity),
        mul_one]
      exact hbn
    rw [abs_le] at herr
    exact Int.ceil_eq_iff.mpr ⟨by linarith, by linarith⟩

theorem nearest_maxDouble : nearest maxDouble = maxDouble := by
  have hp := maxDouble_pos
  exact nearest_grid (by norm_num) (by norm_num) (abs_of_pos hp).le

theorem nearest_neg_maxDouble : nearest (-maxDouble) = -maxDouble := by
  have h : -maxDouble = ((-(2 ^ 53 - 1) : ℤ) : ℚ) * 2 ^ (971 : ℤ) := by
    rw [maxDouble, Int.cast_neg, neg_mul]
  have hp := maxDouble_pos
  rw [h]
  refine nearest_grid (by norm_num) (by norm_num) ?_
  rw [← h, abs_neg, abs_of_pos hp]

/-- Every value of `nearest` is its own nearest double. -/
theorem nearest_idem (q : ℚ) : nearest (nearest q) = nearest q := by
  by_cases h0 : q = 0
  · simp [nearest, h0]
  have hn : nearest q = clamp (roundEven (q / 2 ^ ulpExp q) * 2 ^ ulpExp q) := if_neg h0
  rw [hn]
  rcases clamp_cases (roundEven (q / 2 ^ ulpExp q) * 2 ^ ulpExp q) with h | h | h
  · have hb := abs_clamp_le (roundEven (q / 2 ^ ulpExp q) * 2 ^ ulpExp q)
    rw [h] at hb ⊢
    refine nearest_grid (abs_roundEven_le ?_) (le_max_right _ _) hb
    have hu : (0 : ℚ) < 2 ^ ulpExp q := by positivity
    rw [abs_div, abs_of_pos hu, div_le_iff₀ hu]
    have := (abs_lt_zpow_ulpExp q).le
    rw [zpow_add₀ (by norm_num), mul_comm] at this
    exact_mod_cast this
  · rw [h]; exact nearest_maxDouble
  · rw [h]; exact nearest_neg_maxDouble

/-- A finite `double`. -/
structure Double where
  val : ℚ
  rep : nearest val = val

namespace Double

theorem ext {x y : Double} (h : x.val = y.val) : x = y := by
  cases x; cases y; congr

instance : DecidableEq Double := fun x y =>
  if h : x.val = y.val then .isTrue (ext h) else .isFalse fun e => h (e ▸ rfl)

/-- The double a decimal of value `q` reads as. -/
def ofRat (q : ℚ) : Double := ⟨nearest q, nearest_idem q⟩

@[simp] theorem ofRat_val_self (x : Double) : ofRat x.val = x := ext x.rep

def zero : Double := ⟨0, if_pos rfl⟩

end Double

end ExpenseTracker.Core
