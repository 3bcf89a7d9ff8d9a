import ExpenseTracker.Core.JsNumber
import ExpenseTracker.L5Pages.Budgets
import ExpenseTracker.L5Pages.Http

/-!
# Progress bars

A budget and a goal both show a percentage, in doubles, cut off at 100. Nothing keeps
a target or an amount from being zero or negative.

* `percent_iff`, `full_iff`: when the percentage is one, and when it is 100.
* `progress_iff`: the budgets and goals whose bars are right.
-/
namespace ExpenseTracker.L5.Progress

open ExpenseTracker.Core ExpenseTracker.L1.Password
open ExpenseTracker.L2.Schema ExpenseTracker.L2.Server ExpenseTracker.L2.Statement
open ExpenseTracker.L3.Json ExpenseTracker.L3.Routes
open ExpenseTracker.L4.Tokens ExpenseTracker.L5.Http

def hundred : Double := Double.ofRat 100

/-- `Math.min((part / whole) * 100, 100)` -/
def percentage (part whole : Double) : JsNumber :=
  .min (.mul (.div (.fin part) (.fin whole)) (.fin hundred)) (.fin hundred)

namespace Budgets

/-- mirrors src/frontend/src/pages/Budgets.jsx:105 -/
def percentage (spent target_amount : Double) : JsNumber := Progress.percentage spent target_amount

end Budgets

namespace Goals

/-- mirrors src/frontend/src/pages/Goals.jsx:110 -/
def percentage (saved_amount target_amount : Double) : JsNumber :=
  Progress.percentage saved_amount target_amount

end Goals

/-- A number from 0 to 100. -/
def IsPercent (p : JsNumber) : Prop := ∃ x : Double, p = .fin x ∧ 0 ≤ x.val ∧ x.val ≤ 100

/-! ## The cut-off -/

theorem hundred_val : hundred.val = 100 := by
  have h := nearest_intCast (n := 100) (by norm_num)
  exact_mod_cast h

/-- A rounded number, cut off at 100. -/
def capped (z : ℚ) : JsNumber := .min (.ofRat z) (.fin hundred)

/-- What the cut-off makes of a number that has not overflown. -/
theorem capped_fin {z : ℚ} (h : ¬ maxDouble < |rounded z|) :
    capped z = if nearest z ≤ 100 then .fin (Double.ofRat z) else .fin hundred := by
  have hfin : JsNumber.ofRat z = .fin (Double.ofRat z) := if_neg h
  unfold capped
  rw [hfin]
  show (if nearest z ≤ hundred.val then JsNumber.fin (Double.ofRat z) else _) = _
  rw [hundred_val]

theorem capped_over {z : ℚ} (h : maxDouble < |rounded z|) :
    z < 0 ∧ nearest z < 0 ∧ capped z = .inf true ∨ 100 ≤ nearest z ∧ capped z = .fin hundred := by
  have hmax : (100 : ℚ) ≤ maxDouble := by
    have h7 := two_pow_le_maxDouble (n := 7) (by norm_num)
    norm_num at h7
    linarith
  have hinf : JsNumber.ofRat z = .inf (decide (z < 0)) := if_pos h
  unfold capped
  rw [hinf]
  rcases JsNumber.nearest_of_overflow h with ⟨hz, hn⟩ | ⟨hz, hn⟩
  · rw [hn, decide_eq_true hz]
    exact Or.inl ⟨hz, by linarith, rfl⟩
  · rw [hn, decide_eq_false (not_lt.mpr hz.le)]
    exact Or.inr ⟨hmax, rfl⟩

theorem isPercent_capped {z : ℚ} : IsPercent (capped z) ↔ 0 ≤ nearest z := by
  have hfull : IsPercent (.fin hundred) := ⟨hundred, rfl, by rw [hundred_val]; norm_num,
    hundred_val.le⟩
  by_cases hz : maxDouble < |rounded z|
  · rcases capped_over hz with ⟨_, hneg, hc⟩ | ⟨hge, hc⟩
    · rw [hc]
      refine iff_of_false ?_ (not_le.mpr hneg)
      rintro ⟨x, hx, _⟩
      cases hx
    · rw [hc]
      exact iff_of_true hfull (by linarith)
  · rw [capped_fin hz]
    split
    · rename_i hle
      constructor
      · rintro ⟨x, hx, h0, _⟩
        cases hx
        exact h0
      · exact fun h0 => ⟨_, rfl, h0, hle⟩
    · rename_i hgt
      exact iff_of_true hfull (by linarith)

theorem capped_eq_hundred {z : ℚ} : capped z = .fin hundred ↔ 100 ≤ nearest z := by
  by_cases hz : maxDouble < |rounded z|
  · rcases capped_over hz with ⟨_, hneg, hc⟩ | ⟨hge, hc⟩
    · rw [hc]
      exact iff_of_false (fun h => by cases h) (by linarith)
    · exact iff_of_true hc hge
  · rw [capped_fin hz]
    split
    · rename_i hle
      rw [JsNumber.fin.injEq]
      constructor
      · intro h
        have hval : nearest z = 100 := (congrArg Double.val h).trans hundred_val
        exact hval.ge
      · intro h
        exact Double.ext ((le_antisymm hle h).trans hundred_val.symm)
    · rename_i hgt
      exact iff_of_true rfl (by linarith)

/-! ## The percentage -/

variable {part whole : Double}

theorem percentage_eq (hw : whole.val ≠ 0) :
    percentage part whole = capped (nearest (part.val / whole.val) * 100) := by
  have hdiv : JsNumber.div (.fin part) (.fin whole) = .ofRat (part.val / whole.val) := if_neg hw
  unfold percentage capped
  rw [hdiv, JsNumber.mul_ofRat _ (by rw [hundred_val]; norm_num), hundred_val]

/-- **The percentage is one** unless the quotient is negative and not rounded to zero. -/
theorem percent_iff (hw : whole.val ≠ 0) :
    IsPercent (percentage part whole) ↔ -(2 ^ (-1075 : ℤ)) ≤ part.val / whole.val := by
  rw [percentage_eq hw, isPercent_capped, ← nearest_nonneg_iff]
  obtain ⟨y, hy⟩ : ∃ y : Double, y.val = nearest (part.val / whole.val) := ⟨Double.ofRat _, rfl⟩
  have hpow : (2 : ℚ) ^ (-1074 : ℤ) = 2 * 2 ^ (-1075 : ℤ) := by
    rw [show (-1074 : ℤ) = 1 + -1075 from rfl, zpow_add₀ (by norm_num), zpow_one]
  have hpos : (0 : ℚ) < 2 ^ (-1075 : ℤ) := by positivity
  rw [← hy, nearest_nonneg_iff]
  constructor
  · intro h
    by_contra hneg
    have hlow := Double.le_of_neg (not_le.mp hneg)
    linarith
  · intro h
    linarith

/-- Below one the product stays below 100: a quotient of doubles is not too close to one. -/
theorem nearest_mul_lt (h : part.val / whole.val < 1) :
    nearest (nearest (part.val / whole.val) * 100) < 100 := by
  rcases le_or_gt (part.val / whole.val) 0 with hq | hq
  · have hzero := nearest_nonpos (mul_nonpos_of_nonpos_of_nonneg (nearest_nonpos hq)
      (by norm_num : (0 : ℚ) ≤ 100))
    linarith
  have hlast : nearest (1 - 2 ^ (-53 : ℤ)) = 1 - 2 ^ (-53 : ℤ) := by
    have hval : (1 : ℚ) - 2 ^ (-53 : ℤ) = ((2 ^ 53 - 1 : ℤ) : ℚ) * 2 ^ (-53 : ℤ) := by norm_num
    rw [hval]
    refine nearest_grid (by norm_num) (by norm_num) ?_
    have hone := two_pow_le_maxDouble (n := 0) (by norm_num)
    rw [zpow_zero] at hone
    refine le_trans ?_ hone
    norm_num
  have hle : nearest (part.val / whole.val) ≤ 1 - 2 ^ (-53 : ℤ) :=
    hlast ▸ nearest_mono_of_pos hq (Double.div_le_of_lt_one hq h)
  have hge : 0 ≤ nearest (part.val / whole.val) := by
    have hpow : (0 : ℚ) < 2 ^ (-1075 : ℤ) := by positivity
    exact nearest_nonneg_iff.mpr (by linarith)
  have hsmall : |nearest (part.val / whole.val) * 100| < 2 ^ (7 : ℤ) := by
    rw [abs_of_nonneg (by linarith)]
    norm_num at hle ⊢
    linarith
  have herr := abs_le.mp (abs_nearest_sub_le_two_pow hsmall (by norm_num) (by norm_num))
  norm_num at hle herr
  linarith

/-- **The bar is full** when the quotient is at least one. -/
theorem full_iff (hw : whole.val ≠ 0) :
    percentage part whole = .fin hundred ↔ 1 ≤ part.val / whole.val := by
  have hone : nearest 1 = 1 := by exact_mod_cast nearest_intCast (n := 1) (by norm_num)
  have hcent : nearest 100 = 100 := by exact_mod_cast nearest_intCast (n := 100) (by norm_num)
  rw [percentage_eq hw, capped_eq_hundred]
  constructor
  · intro h
    by_contra hlt
    exact absurd (nearest_mul_lt (not_le.mp hlt)) (not_lt.mpr h)
  · intro h
    have hq : nearest 1 ≤ nearest (part.val / whole.val) := nearest_mono_of_pos one_pos h
    rw [hone] at hq
    calc (100 : ℚ) = nearest 100 := hcent.symm
      _ ≤ nearest (nearest (part.val / whole.val) * 100) :=
          nearest_mono_of_pos (by norm_num) (by linarith)

/-- A whole of zero. -/
theorem percentage_zero (hw : whole.val = 0) :
    percentage part whole =
      if part.val = 0 then .nan else if part.val < 0 then .inf true else .fin hundred := by
  have h100 : ¬ hundred.val = 0 := by
    rw [hundred_val]
    norm_num
  have hneg : decide (hundred.val < 0) = false := by
    rw [hundred_val]
    exact decide_eq_false (by norm_num)
  unfold percentage
  by_cases hp : part.val = 0
  · simp [JsNumber.div, JsNumber.mul, JsNumber.min, hw, hp]
  · by_cases hlt : part.val < 0
    · simp [JsNumber.div, JsNumber.mul, JsNumber.min, hw, hp, hlt, h100, hneg]
    · simp [JsNumber.div, JsNumber.mul, JsNumber.min, hw, hp, hlt, h100, hneg]

/-! ## The bars -/

/-- The amounts a percentage is one for. -/
theorem isPercent_percentage_iff (part whole : Double) : IsPercent (percentage part whole) ↔
    0 < whole.val ∧ -whole.val ≤ 2 ^ (1075 : ℤ) * part.val ∨ whole.val = 0 ∧ 0 < part.val ∨
      whole.val < 0 ∧ 2 ^ (1075 : ℤ) * part.val ≤ -whole.val := by
  have hpow : (0 : ℚ) < 2 ^ (1075 : ℤ) := by positivity
  have hinv : (2 : ℚ) ^ (-1075 : ℤ) = (2 ^ (1075 : ℤ))⁻¹ := zpow_neg _ _
  rcases lt_trichotomy whole.val 0 with hw | hw | hw
  · have hle : part.val ≤ -(2 ^ (-1075 : ℤ)) * whole.val ↔
        2 ^ (1075 : ℤ) * part.val ≤ -whole.val := by
      rw [neg_mul, ← mul_neg, hinv, le_inv_mul_iff₀ hpow]
    rw [percent_iff hw.ne, le_div_iff_of_neg hw, hle]
    simp [hw, hw.ne, not_lt.mpr hw.le]
  · rw [percentage_zero hw]
    have hnot : ∀ p : JsNumber, (∀ x, p ≠ .fin x) → ¬ IsPercent p := fun p hp ⟨x, hx, _⟩ => hp x hx
    rcases lt_trichotomy part.val 0 with hp | hp | hp
    · rw [if_neg hp.ne, if_pos hp]
      refine iff_of_false (hnot _ fun x h => by cases h) ?_
      simp [hw, not_lt.mpr hp.le]
    · rw [if_pos hp]
      refine iff_of_false (hnot _ fun x h => by cases h) ?_
      simp [hw, hp]
    · rw [if_neg hp.ne', if_neg (not_lt.mpr hp.le)]
      exact iff_of_true ⟨hundred, rfl, by rw [hundred_val]; norm_num, hundred_val.le⟩
        (Or.inr (Or.inl ⟨hw, hp⟩))
  · have hle : -(2 ^ (-1075 : ℤ)) * whole.val ≤ part.val ↔
        -whole.val ≤ 2 ^ (1075 : ℤ) * part.val := by
      rw [neg_mul, neg_le, hinv, le_inv_mul_iff₀ hpow, mul_neg, neg_le]
    rw [percent_iff hw.ne', le_div_iff₀ hw, hle]
    simp [hw, hw.ne', not_lt.mpr hw.le]

/-- The bar of an exceeded budget is full, but for a negative target. -/
theorem full_of_exceeded_iff {spent target_amount : Double}
    (h : target_amount.val < spent.val) :
    percentage spent target_amount = .fin hundred ↔ 0 ≤ target_amount.val := by
  rcases lt_trichotomy target_amount.val 0 with ht | ht | ht
  · rw [full_iff ht.ne, one_le_div_of_neg ht]
    exact iff_of_false (not_le.mpr h) (not_le.mpr ht)
  · rw [percentage_zero ht, if_neg (by linarith), if_neg (by linarith)]
    exact iff_of_true rfl ht.ge
  · rw [full_iff ht.ne', one_le_div ht]
    exact iff_of_true h.le ht.le

/-- For every budget with every list of expenses, in whatever way doubles are added, and for
every goal: the bar of the budget is a percentage, and full when the budget is exceeded, if
and only if the target is positive and the amount spent is not negative (or so little that
the quotient is rounded to zero), the target is zero and something is spent, or the target
is negative and not exceeded; and the bar of the goal is a percentage if and only if the
amounts have one sign in this way, or the target is zero and something is saved. -/
theorem progress_iff (add : Double → Double → Double) (category_name : String)
    (expenses : List Expense) (saved_amount target_amount : Double) :
    let spent := Labels.Budgets.spent add category_name expenses
    (IsPercent (Budgets.percentage spent target_amount) ∧
        (L5.Budgets.isExceeded spent.val target_amount.val = true →
          Budgets.percentage spent target_amount = .fin hundred) ↔
      0 < target_amount.val ∧ -target_amount.val ≤ 2 ^ (1075 : ℤ) * spent.val ∨
      target_amount.val = 0 ∧ 0 < spent.val ∨
      target_amount.val < 0 ∧ spent.val ≤ target_amount.val) ∧
    (IsPercent (Goals.percentage saved_amount target_amount) ↔
      0 < target_amount.val ∧ -target_amount.val ≤ 2 ^ (1075 : ℤ) * saved_amount.val ∨
      target_amount.val = 0 ∧ 0 < saved_amount.val ∨
      target_amount.val < 0 ∧ 2 ^ (1075 : ℤ) * saved_amount.val ≤ -target_amount.val) := by
  intro spent
  refine ⟨?_, isPercent_percentage_iff saved_amount target_amount⟩
  have hexceeded : L5.Budgets.isExceeded spent.val target_amount.val = true ↔
      target_amount.val < spent.val := decide_eq_true_iff
  rw [hexceeded]
  show IsPercent (percentage spent target_amount) ∧ (_ → percentage spent target_amount = _) ↔ _
  have hpercent := isPercent_percentage_iff spent target_amount
  have hpow : (0 : ℚ) < 2 ^ (1075 : ℤ) := by positivity
  constructor
  · intro ⟨hp, hfull⟩
    rcases hpercent.mp hp with h | h | ⟨ht, _⟩
    · exact Or.inl h
    · exact Or.inr (Or.inl h)
    · refine Or.inr (Or.inr ⟨ht, ?_⟩)
      by_contra hlt
      have hge := (full_of_exceeded_iff (not_le.mp hlt)).mp (hfull (not_le.mp hlt))
      linarith
  · rintro (h | h | ⟨ht, hle⟩)
    · exact ⟨hpercent.mpr (Or.inl h), fun hlt => (full_of_exceeded_iff hlt).mpr h.1.le⟩
    · exact ⟨hpercent.mpr (Or.inr (Or.inl h)), fun hlt => (full_of_exceeded_iff hlt).mpr h.1.ge⟩
    · refine ⟨hpercent.mpr (Or.inr (Or.inr ⟨ht, ?_⟩)), fun hlt => absurd hlt (not_lt.mpr hle)⟩
      have hneg : 2 ^ (1075 : ℤ) * spent.val ≤ 0 :=
        mul_nonpos_of_nonneg_of_nonpos hpow.le (by linarith)
      exact hneg.trans (neg_nonneg.mpr ht.le)

/-! ## A target of zero -/

/-- A budget of zero for food. -/
def zeroTarget : RValue := .object
  [(ascii "category_name", .string (ascii "Food") (ascii "Food")),
    (ascii "target_amount", .number ⟨false, 0, 0, 0, 0⟩)]

/-- It is accepted and listed, and before anything is spent its percentage is no number;
neither is that of a goal of zero with nothing saved. -/
theorem progress_zero :
    let auth := authenticate Crypto.zero
    let posted := serve Crypto.zero auth MySql.plain
      ⟨.postBudgets, bearer annToken (some zeroTarget), .none⟩ (.idle Db.migrated)
    let listed := serve Crypto.zero auth MySql.plain
      ⟨.getBudgets, bearer annToken none, .none⟩ posted.2
    posted.1.code = 201 ∧
      listed.1.body.entries.map (doubleProp · "target_amount") = [some .zero] ∧
      (∀ add, Budgets.percentage (Labels.Budgets.spent add "Food" []) .zero = .nan) ∧
      Goals.percentage .zero .zero = .nan ∧ ¬ IsPercent .nan := by
  have hnan : Goals.percentage .zero .zero = .nan := by decide
  refine ⟨by decide +kernel, by decide +kernel, fun add => hnan, hnan, ?_⟩
  rintro ⟨x, hx, _⟩
  cases hx

end ExpenseTracker.L5.Progress
