import ExpenseTracker.Core.Rounding

/-!
# Numbers of ECMAScript

A number is not a number (`NaN`), an infinity, or a finite double; arithmetic is exact and then
rounded, and overflows to an infinity. The sign of a zero is not kept, so a division by
zero is one by `+0`.

* `nearest_mono_of_pos`: rounding keeps the order of positive numbers.
* `nearest_nonneg_iff`: what is rounded to zero from below.
* `Double.div_le_of_lt_one`: a quotient of doubles below one is at most `1 - 2 ^ (-53)`.
* `JsNumber.mul_ofRat`: a product with a result already rounded.
-/
namespace ExpenseTracker.Core

/-! ## The order of rounded numbers -/

theorem roundEven_mono {x y : ℚ} (h : x ≤ y) : roundEven x ≤ roundEven y := by
  by_contra hlt
  have hx := abs_le.mp (abs_roundEven_sub_le x)
  have hy := abs_le.mp (abs_roundEven_sub_le y)
  have hstep : (roundEven y : ℚ) + 1 ≤ roundEven x := by exact_mod_cast not_le.mp hlt
  -- the two numbers are one and the same tie
  have heq : x = y := by linarith
  rw [heq] at hlt
  exact hlt le_rfl

theorem roundEven_nonneg_iff {x : ℚ} : 0 ≤ roundEven x ↔ -(1 / 2) ≤ x := by
  constructor
  · intro h
    have hx := abs_le.mp (abs_roundEven_sub_le x)
    have h0 : (0 : ℚ) ≤ roundEven x := by exact_mod_cast h
    linarith
  · intro h
    have htie : roundEven (-(1 / 2)) = 0 := by decide +kernel
    exact htie ▸ roundEven_mono h

/-- `q` rounded on the grid of its binade, however large. -/
def rounded (q : ℚ) : ℚ := roundEven (q / 2 ^ ulpExp q) * 2 ^ ulpExp q

theorem nearest_eq (q : ℚ) : nearest q = clamp (rounded q) := by
  unfold nearest
  split
  · rename_i h
    subst h
    have hzero : rounded 0 = 0 := by
      unfold rounded
      rw [zero_div, show roundEven 0 = 0 from roundEven_intCast 0, Int.cast_zero, zero_mul]
    rw [hzero, clamp_of_le (by rw [abs_zero]; exact maxDouble_pos.le)]
  · rfl

theorem abs_rounded_sub_le (q : ℚ) : |rounded q - q| ≤ 2 ^ ulpExp q / 2 := by
  have hu : (0 : ℚ) < 2 ^ ulpExp q := by positivity
  have he : rounded q - q = (roundEven (q / 2 ^ ulpExp q) - q / 2 ^ ulpExp q) * 2 ^ ulpExp q := by
    unfold rounded
    field_simp
  rw [he, abs_mul, abs_of_pos hu]
  calc _ ≤ 1 / 2 * 2 ^ ulpExp q := mul_le_mul_of_nonneg_right (abs_roundEven_sub_le _) hu.le
    _ = 2 ^ ulpExp q / 2 := by ring

/-- Above the last binade a number has all its 53 bits. -/
theorem zpow_ulpExp_le {q : ℚ} (h0 : q ≠ 0) (h : -1074 < ulpExp q) :
    2 ^ (ulpExp q + 52) ≤ |q| := by
  have hlog : ulpExp q + 52 = Int.log 2 |q| := by
    unfold ulpExp at *
    omega
  rw [hlog]
  exact_mod_cast Int.zpow_log_le_self (b := 2) (by decide) (abs_pos.mpr h0)

theorem ulpExp_mono {x y : ℚ} (hx : 0 < x) (h : x ≤ y) : ulpExp x ≤ ulpExp y := by
  have hlog : Int.log 2 |x| ≤ Int.log 2 |y| := by
    rw [abs_of_pos hx, abs_of_pos (hx.trans_le h)]
    exact Int.log_mono_right hx h
  unfold ulpExp
  omega

theorem rounded_mono_of_pos {x y : ℚ} (hx : 0 < x) (h : x ≤ y) : rounded x ≤ rounded y := by
  have hy : 0 < y := hx.trans_le h
  have hux : (0 : ℚ) < 2 ^ ulpExp x := by positivity
  have huy : (0 : ℚ) < 2 ^ ulpExp y := by positivity
  unfold rounded
  rcases (ulpExp_mono hx h).eq_or_lt with heq | hlt
  · rw [heq] at hux ⊢
    refine mul_le_mul_of_nonneg_right ?_ huy.le
    exact_mod_cast roundEven_mono (div_le_div_of_nonneg_right h huy.le)
  · -- a power of two lies between the two
    have hbits : roundEven (x / 2 ^ ulpExp x) ≤ 2 ^ 53 := by
      have hsmall : x / 2 ^ ulpExp x ≤ ((2 ^ 53 : ℤ) : ℚ) := by
        have hlt := abs_lt_zpow_ulpExp x
        rw [abs_of_pos hx, zpow_add₀ (by norm_num), mul_comm] at hlt
        rw [div_le_iff₀ hux]
        exact_mod_cast hlt.le
      exact roundEven_intCast (2 ^ 53) ▸ roundEven_mono hsmall
    have hfull : (2 : ℤ) ^ 52 ≤ roundEven (y / 2 ^ ulpExp y) := by
      have hlarge : ((2 ^ 52 : ℤ) : ℚ) ≤ y / 2 ^ ulpExp y := by
        have hlo : -1074 < ulpExp y := lt_of_le_of_lt (le_max_right _ _) hlt
        have hle := zpow_ulpExp_le hy.ne' hlo
        rw [abs_of_pos hy, zpow_add₀ (by norm_num), mul_comm] at hle
        rw [le_div_iff₀ huy]
        exact_mod_cast hle
      exact roundEven_intCast (2 ^ 52) ▸ roundEven_mono hlarge
    calc (roundEven (x / 2 ^ ulpExp x) : ℚ) * 2 ^ ulpExp x
        ≤ 2 ^ (53 : ℤ) * 2 ^ ulpExp x :=
          mul_le_mul_of_nonneg_right (by exact_mod_cast hbits) hux.le
      _ = 2 ^ (ulpExp x + 53) := by rw [mul_comm, zpow_add₀ (by norm_num)]
      _ ≤ 2 ^ (ulpExp y + 52) := zpow_le_zpow_right₀ (by norm_num) (by omega)
      _ = 2 ^ (52 : ℤ) * 2 ^ ulpExp y := by rw [mul_comm, zpow_add₀ (by norm_num)]
      _ ≤ roundEven (y / 2 ^ ulpExp y) * 2 ^ ulpExp y :=
          mul_le_mul_of_nonneg_right (by exact_mod_cast hfull) huy.le

theorem clamp_mono {x y : ℚ} (h : x ≤ y) : clamp x ≤ clamp y :=
  max_le_max le_rfl (min_le_min h le_rfl)

/-- **Rounding keeps the order.** -/
theorem nearest_mono_of_pos {x y : ℚ} (hx : 0 < x) (h : x ≤ y) : nearest x ≤ nearest y := by
  rw [nearest_eq, nearest_eq]
  exact clamp_mono (rounded_mono_of_pos hx h)

theorem clamp_nonneg_iff {q : ℚ} : 0 ≤ clamp q ↔ 0 ≤ q := by
  have hmax := maxDouble_pos
  unfold clamp
  rw [le_max_iff, le_min_iff]
  constructor
  · rintro (h | h)
    · linarith
    · exact h.1
  · exact fun h => Or.inr ⟨h, hmax.le⟩

theorem nearest_nonpos {q : ℚ} (h : q ≤ 0) : nearest q ≤ 0 := by
  have hu : (0 : ℚ) < 2 ^ ulpExp q := by positivity
  have hround : roundEven (q / 2 ^ ulpExp q) ≤ 0 :=
    roundEven_intCast 0 ▸ roundEven_mono (by simpa using div_nonpos_of_nonpos_of_nonneg h hu.le)
  have hrounded : rounded q ≤ 0 :=
    mul_nonpos_of_nonpos_of_nonneg (by exact_mod_cast hround) hu.le
  rw [nearest_eq]
  exact max_le (by linarith [maxDouble_pos]) ((min_le_left _ _).trans hrounded)

/-- **Rounded to zero from below**: half the smallest double and less. -/
theorem nearest_nonneg_iff {q : ℚ} : 0 ≤ nearest q ↔ -(2 ^ (-1075 : ℤ)) ≤ q := by
  have hu : (0 : ℚ) < 2 ^ ulpExp q := by positivity
  have hhalf : (2 : ℚ) ^ (ulpExp q - 1) = 2 ^ ulpExp q / 2 := by
    rw [zpow_sub₀ (by norm_num), zpow_one]
  have hround : 0 ≤ nearest q ↔ -(2 ^ (ulpExp q - 1)) ≤ q := by
    rw [nearest_eq, clamp_nonneg_iff]
    unfold rounded
    rw [mul_nonneg_iff_of_pos_right hu, Int.cast_nonneg_iff, roundEven_nonneg_iff, hhalf,
      le_div_iff₀ hu]
    constructor <;> intro h <;> linarith
  rw [hround]
  have hexp : (-1074 : ℤ) ≤ ulpExp q := le_max_right _ _
  constructor
  · intro h
    by_contra hlow
    have hneg : q < 0 := by
      have hpos : (0 : ℚ) < 2 ^ (-1075 : ℤ) := by positivity
      linarith
    -- further down numbers have all their bits and are not rounded to zero
    rcases hexp.eq_or_lt with heq | hlt
    · rw [← heq] at h
      exact hlow h
    · have hbits := zpow_ulpExp_le hneg.ne hlt
      rw [abs_of_neg hneg] at hbits
      have hpow : (2 : ℚ) ^ (ulpExp q - 1) < 2 ^ (ulpExp q + 52) :=
        zpow_lt_zpow_right₀ (by norm_num) (by omega)
      linarith
  · intro h
    have hpow : (2 : ℚ) ^ (-1075 : ℤ) ≤ 2 ^ (ulpExp q - 1) :=
      zpow_le_zpow_right₀ (by norm_num) (by omega)
    linarith

/-! ## Doubles -/

theorem ulpExp_maxDouble : ulpExp maxDouble = 971 := by
  have hlog : Int.log 2 maxDouble = 1023 := by
    have htop : maxDouble < 2 ^ (1023 + 1 : ℤ) := by
      have hsplit : (2 : ℚ) ^ (1023 + 1 : ℤ) = 2 ^ (53 : ℤ) * 2 ^ (971 : ℤ) := by
        rw [← zpow_add₀ (by norm_num)]
        rfl
      rw [hsplit, maxDouble]
      exact mul_lt_mul_of_pos_right (by norm_num) (by positivity)
    refine le_antisymm ?_ ?_
    · refine Int.lt_add_one_iff.mp ((Int.lt_zpow_iff_log_lt (by decide) maxDouble_pos).mp ?_)
      exact_mod_cast htop
    · refine (Int.zpow_le_iff_le_log (by decide) maxDouble_pos).mp ?_
      exact_mod_cast two_pow_le_maxDouble (n := 1023) le_rfl
  unfold ulpExp
  rw [abs_of_pos maxDouble_pos, hlog]
  rfl

theorem ulpExp_neg (q : ℚ) : ulpExp (-q) = ulpExp q := by
  unfold ulpExp
  rw [abs_neg]

namespace Double

/-- A double is on the grid of its binade. -/
theorem grid (x : Double) : ∃ m : ℤ, x.val = m * 2 ^ ulpExp x.val ∧ |m| < 2 ^ 53 := by
  have hgrid : ∃ m : ℤ, x.val = m * 2 ^ ulpExp x.val := by
    have hrep := x.rep
    rw [nearest_eq] at hrep
    rcases clamp_cases (rounded x.val) with h | h | h
    · exact ⟨_, (hrep.symm.trans h : x.val = rounded x.val)⟩
    · have hval : x.val = maxDouble := hrep.symm.trans h
      exact ⟨2 ^ 53 - 1, by rw [hval, ulpExp_maxDouble, maxDouble]⟩
    · have hval : x.val = -maxDouble := hrep.symm.trans h
      refine ⟨-(2 ^ 53 - 1), ?_⟩
      rw [hval, ulpExp_neg, ulpExp_maxDouble, maxDouble, Int.cast_neg, neg_mul]
  obtain ⟨m, hm⟩ := hgrid
  refine ⟨m, hm, ?_⟩
  have hu : (0 : ℚ) < 2 ^ ulpExp x.val := by positivity
  have hlt := abs_lt_zpow_ulpExp x.val
  rw [zpow_add₀ (by norm_num), mul_comm] at hlt
  nth_rewrite 1 [hm] at hlt
  rw [abs_mul, abs_of_pos hu] at hlt
  exact_mod_cast lt_of_mul_lt_mul_right hlt hu.le

/-- The negative doubles end at the smallest. -/
theorem le_of_neg {x : Double} (h : x.val < 0) : x.val ≤ -(2 ^ (-1074 : ℤ)) := by
  obtain ⟨m, hm, _⟩ := x.grid
  have hu : (0 : ℚ) < 2 ^ ulpExp x.val := by positivity
  have hneg : m ≤ -1 := by
    by_contra hge
    have hm0 : (0 : ℚ) ≤ m := by exact_mod_cast (by omega : 0 ≤ m)
    rw [hm] at h
    exact absurd (mul_nonneg hm0 hu.le) (not_le.mpr h)
  have hpow : (2 : ℚ) ^ (-1074 : ℤ) ≤ 2 ^ ulpExp x.val :=
    zpow_le_zpow_right₀ (by norm_num) (le_max_right _ _)
  calc x.val = m * 2 ^ ulpExp x.val := hm
    _ ≤ -1 * 2 ^ ulpExp x.val := mul_le_mul_of_nonneg_right (by exact_mod_cast hneg) hu.le
    _ ≤ -(2 ^ (-1074 : ℤ)) := by linarith

/-- **Quotients below one.** A double is at least one part in `2 ^ 53` below a larger one. -/
theorem div_le_of_lt {x y : Double} (hx : 0 < x.val) (h : x.val < y.val) :
    x.val / y.val ≤ 1 - 2 ^ (-53 : ℤ) := by
  have hy : 0 < y.val := hx.trans h
  obtain ⟨m, hm, hmlt⟩ := x.grid
  obtain ⟨n, hn, hnlt⟩ := y.grid
  have hux : (0 : ℚ) < 2 ^ ulpExp x.val := by positivity
  have huy : (0 : ℚ) < 2 ^ ulpExp y.val := by positivity
  rw [div_le_iff₀ hy, sub_mul, one_mul]
  have hinv : (2 : ℚ) ^ (-53 : ℤ) * 2 ^ (53 : ℤ) = 1 := by
    rw [← zpow_add₀ (by norm_num)]
    rfl
  rcases (ulpExp_mono hx h.le).eq_or_lt with heq | hlt
  · -- in one binade, by a step of its grid
    have hmn : m + 1 ≤ n := by
      rw [hm, hn, heq] at h
      exact_mod_cast lt_of_mul_lt_mul_right h huy.le
    have hstep : (m + 1 : ℚ) * 2 ^ ulpExp y.val ≤ y.val :=
      calc (m + 1 : ℚ) * 2 ^ ulpExp y.val ≤ n * 2 ^ ulpExp y.val :=
            mul_le_mul_of_nonneg_right (by exact_mod_cast hmn) huy.le
        _ = y.val := hn.symm
    have hpart : 2 ^ (-53 : ℤ) * y.val ≤ 2 ^ ulpExp y.val := by
      have hylt := abs_lt_zpow_ulpExp y.val
      rw [abs_of_pos hy, zpow_add₀ (by norm_num)] at hylt
      calc 2 ^ (-53 : ℤ) * y.val ≤ 2 ^ (-53 : ℤ) * (2 ^ ulpExp y.val * 2 ^ (53 : ℤ)) :=
            mul_le_mul_of_nonneg_left hylt.le (by positivity)
        _ = 2 ^ ulpExp y.val := by rw [mul_left_comm, hinv, mul_one]
    rw [heq] at hm
    linarith
  · -- across binades, by the last step of the lower one
    have htop : 2 ^ (ulpExp x.val + 53) ≤ y.val := by
      have hlo : -1074 < ulpExp y.val := lt_of_le_of_lt (le_max_right _ _) hlt
      have hle := zpow_ulpExp_le hy.ne' hlo
      rw [abs_of_pos hy] at hle
      exact (zpow_le_zpow_right₀ (by norm_num) (by omega)).trans hle
    have hm53 : (m : ℚ) ≤ 2 ^ (53 : ℤ) - 1 := by
      have hle : m ≤ 2 ^ 53 - 1 := by
        have := abs_lt.mp hmlt
        omega
      exact_mod_cast hle
    calc x.val = m * 2 ^ ulpExp x.val := hm
      _ ≤ (2 ^ (53 : ℤ) - 1) * 2 ^ ulpExp x.val := mul_le_mul_of_nonneg_right hm53 hux.le
      _ = 2 ^ (ulpExp x.val + 53) - 2 ^ (-53 : ℤ) * 2 ^ (ulpExp x.val + 53) := by
          rw [zpow_add₀ (by norm_num), sub_mul, one_mul, mul_left_comm, hinv, mul_one, mul_comm]
      _ = (1 - 2 ^ (-53 : ℤ)) * 2 ^ (ulpExp x.val + 53) := by ring
      _ ≤ (1 - 2 ^ (-53 : ℤ)) * y.val := mul_le_mul_of_nonneg_left htop (by norm_num)
      _ = y.val - 2 ^ (-53 : ℤ) * y.val := by ring

theorem abs_val_le (x : Double) : |x.val| ≤ maxDouble := by
  rw [← x.rep, nearest_eq]
  exact abs_clamp_le _

def neg (x : Double) : Double where
  val := -x.val
  rep := by
    obtain ⟨m, hm, hlt⟩ := x.grid
    have hval : -x.val = ((-m : ℤ) : ℚ) * 2 ^ ulpExp x.val := by
      rw [Int.cast_neg, neg_mul, ← hm]
    have hmax : |-x.val| ≤ maxDouble := by
      rw [abs_neg]
      exact x.abs_val_le
    rw [hval] at hmax ⊢
    exact nearest_grid (by rw [abs_neg]; exact hlt.le) (le_max_right _ _) hmax

theorem div_le_of_lt_one {x y : Double} (h0 : 0 < x.val / y.val) (h1 : x.val / y.val < 1) :
    x.val / y.val ≤ 1 - 2 ^ (-53 : ℤ) := by
  rcases div_pos_iff.mp h0 with ⟨hx, hy⟩ | ⟨hx, hy⟩
  · exact div_le_of_lt hx ((div_lt_one hy).mp h1)
  · have hlt : x.neg.val < y.neg.val := neg_lt_neg ((div_lt_one_of_neg hy).mp h1)
    have hle := div_le_of_lt (neg_pos.mpr hx) hlt
    rwa [show x.neg.val / y.neg.val = x.val / y.val from neg_div_neg_eq _ _] at hle

end Double

/-! ## Numbers -/

inductive JsNumber where
  | nan
  | inf (neg : Bool)
  | fin (x : Double)
  deriving DecidableEq

namespace JsNumber

/-- The number an exact result is rounded to. -/
def ofRat (q : ℚ) : JsNumber :=
  if maxDouble < |rounded q| then .inf (decide (q < 0)) else .fin (Double.ofRat q)

/-- `x / y` -/
def div : JsNumber → JsNumber → JsNumber
  | .fin x, .fin y =>
    if y.val = 0 then (if x.val = 0 then .nan else .inf (decide (x.val < 0)))
    else ofRat (x.val / y.val)
  | .inf neg, .fin y => .inf (neg != decide (y.val < 0))
  | .fin _, .inf _ => .fin .zero
  | _, _ => .nan

/-- `x * y` -/
def mul : JsNumber → JsNumber → JsNumber
  | .fin x, .fin y => ofRat (x.val * y.val)
  | .inf neg, .inf neg' => .inf (neg != neg')
  | .inf neg, .fin y => if y.val = 0 then .nan else .inf (neg != decide (y.val < 0))
  | .fin x, .inf neg => if x.val = 0 then .nan else .inf (neg != decide (x.val < 0))
  | _, _ => .nan

/-- `Math.min(x, y)` -/
def min : JsNumber → JsNumber → JsNumber
  | .nan, _ | _, .nan => .nan
  | .inf true, _ | _, .inf true => .inf true
  | .inf false, y => y
  | x, .inf false => x
  | .fin x, .fin y => if x.val ≤ y.val then .fin x else .fin y

/-- Twice the largest double is out of reach. -/
theorem overflow_of_le {q : ℚ} (h : 2 * maxDouble ≤ |q|) : maxDouble < |rounded q| := by
  have hmax := maxDouble_pos
  have hone : (1 : ℚ) ≤ maxDouble := by
    simpa using two_pow_le_maxDouble (n := 0) (by norm_num)
  have hq0 : q ≠ 0 := by
    intro h0
    rw [h0, abs_zero] at h
    linarith
  have hulp : (2 : ℚ) ^ ulpExp q ≤ |q| / 2 := by
    have hexp : (-1074 : ℤ) ≤ ulpExp q := le_max_right _ _
    rcases hexp.eq_or_lt with heq | hlt
    · have hsmall : (2 : ℚ) ^ ulpExp q ≤ 2 ^ (0 : ℤ) :=
        zpow_le_zpow_right₀ (by norm_num) (by omega)
      rw [zpow_zero] at hsmall
      linarith
    · have hbits := zpow_ulpExp_le hq0 hlt
      have hpow : (2 : ℚ) ^ (ulpExp q + 1) ≤ 2 ^ (ulpExp q + 52) :=
        zpow_le_zpow_right₀ (by norm_num) (by omega)
      rw [zpow_add₀ (by norm_num), zpow_one] at hpow
      linarith
  have herr := abs_rounded_sub_le q
  have htri := abs_sub_abs_le_abs_sub q (rounded q)
  rw [abs_sub_comm] at htri
  linarith

theorem nearest_of_overflow {q : ℚ} (h : maxDouble < |rounded q|) :
    q < 0 ∧ nearest q = -maxDouble ∨ 0 < q ∧ nearest q = maxDouble := by
  have hmax := maxDouble_pos
  have hu : (0 : ℚ) < 2 ^ ulpExp q := by positivity
  rw [nearest_eq]
  rcases lt_abs.mp h with hpos | hneg
  · have hclamp : clamp (rounded q) = maxDouble := by
      unfold clamp
      rw [min_eq_right hpos.le, max_eq_right (by linarith)]
    refine Or.inr ⟨?_, hclamp⟩
    by_contra hq
    have hle := nearest_nonpos (not_lt.mp hq)
    rw [nearest_eq, hclamp] at hle
    linarith
  · have hclamp : clamp (rounded q) = -maxDouble := by
      unfold clamp
      rw [min_eq_left (by linarith), max_eq_left (by linarith)]
    refine Or.inl ⟨?_, hclamp⟩
    by_contra hq
    have htiny : -(2 ^ (-1075 : ℤ)) ≤ q := by
      have hpow : (0 : ℚ) < 2 ^ (-1075 : ℤ) := by positivity
      linarith
    have hle := nearest_nonneg_iff.mpr htiny
    rw [nearest_eq, hclamp] at hle
    linarith

/-- **A product with a rounded result.** What has overflown overflows again. -/
theorem mul_ofRat (q : ℚ) {y : Double} (hy : 2 ≤ y.val) :
    mul (ofRat q) (.fin y) = ofRat (nearest q * y.val) := by
  have hmax := maxDouble_pos
  have hy0 : ¬ y.val = 0 := by
    intro h0
    rw [h0] at hy
    norm_num at hy
  have hyneg : decide (y.val < 0) = false := decide_eq_false (by linarith)
  by_cases hq : maxDouble < |rounded q|
  · have hover : maxDouble < |rounded (nearest q * y.val)| := by
      apply overflow_of_le
      have habs : |nearest q| = maxDouble := by
        rcases nearest_of_overflow hq with ⟨_, h⟩ | ⟨_, h⟩
        · rw [h, abs_neg, abs_of_pos hmax]
        · rw [h, abs_of_pos hmax]
      rw [abs_mul, habs, abs_of_pos (by linarith : 0 < y.val), mul_comm]
      exact mul_le_mul_of_nonneg_left hy hmax.le
    have hsign : (nearest q * y.val < 0) = (q < 0) := by
      rcases nearest_of_overflow hq with ⟨hneg, h⟩ | ⟨hpos, h⟩
      · have hprod : nearest q * y.val < 0 := by
          rw [h]
          exact mul_neg_of_neg_of_pos (by linarith) (by linarith)
        simp only [hneg, hprod]
      · have hprod : ¬ nearest q * y.val < 0 := by
          rw [h]
          exact not_lt.mpr (mul_nonneg hmax.le (by linarith))
        simp only [hprod, not_lt.mpr hpos.le]
    unfold ofRat
    rw [if_pos hq, if_pos hover]
    simp only [mul, if_neg hy0, hyneg, Bool.bne_false, hsign]
  · have hfin : ofRat q = .fin (Double.ofRat q) := if_neg hq
    rw [hfin]
    rfl

end JsNumber

end ExpenseTracker.Core
