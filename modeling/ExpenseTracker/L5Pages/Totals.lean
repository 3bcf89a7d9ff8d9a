import ExpenseTracker.Core.Summation
import ExpenseTracker.L4Service.Wire
import ExpenseTracker.L5Pages.Budgets
import ExpenseTracker.L5Pages.Dashboard
import ExpenseTracker.L5Pages.Parsed

/-!
# Totals to the cent

The pages add amounts up in doubles and show the sums with two decimals. The
amounts are whole cents, rounded to doubles, and so the sums are off by a little.

* `cards_exact`: the cards of the Dashboard show the exact sums.
* `card_exact`: so do the Budgets, and a cap is exceeded exactly when it is,
  but for one that is reached to the cent.
-/
namespace ExpenseTracker.L5.Totals

open ExpenseTracker.Core ExpenseTracker.Core.JsNumber ExpenseTracker.Core.JsDate
open ExpenseTracker.L1.Amount ExpenseTracker.L1.Password
open ExpenseTracker.L2.Schema ExpenseTracker.L2.Statement ExpenseTracker.L2.Server
open ExpenseTracker.L2.SqlText
open ExpenseTracker.L3.Routes ExpenseTracker.L3.Serve ExpenseTracker.L3.Program
open ExpenseTracker.L4.Tokens ExpenseTracker.L4.Refinement ExpenseTracker.L4.Wire
open ExpenseTracker.L5.Charts ExpenseTracker.L5.Budgets ExpenseTracker.L5.Parsed

/-! ## Cents -/

/-- An amount in cents. -/
def cents (x : Double) : ℤ := ⌊x.val * 100 + 1 / 2⌋

theorem ulpExp_cents (k : ℤ) : -1074 < ulpExp ((k : ℚ) / 100) := by
  rcases eq_or_ne k 0 with rfl | h0
  · rw [Int.cast_zero, zero_div, ulpExp, abs_zero, Int.log_zero_right]
    omega
  · have hcent : ((2 : ℕ) : ℚ) ^ (-7 : ℤ) ≤ |(k : ℚ) / 100| := by
      rw [abs_div, abs_of_pos (by norm_num : (0 : ℚ) < 100), le_div_iff₀ (by norm_num)]
      have h1 : (1 : ℚ) ≤ |(k : ℚ)| := by exact_mod_cast Int.one_le_abs h0
      norm_num
      linarith
    have hlog := (Int.zpow_le_iff_le_log (by decide) (by positivity)).mp hcent
    unfold ulpExp
    omega

theorem abs_ofCents_sub_le {k : ℤ} (hk : |k| < 10 ^ 10) :
    |(ofCents k).val - (k : ℚ) / 100| ≤ |(k : ℚ) / 100| / 2 ^ 53 := by
  have hmax : |(k : ℚ) / 100| ≤ maxDouble := by
    have hlt := abs_cents_lt hk
    have hpow := two_pow_le_maxDouble (n := 27) (by norm_num)
    norm_num at hlt hpow
    linarith
  exact abs_nearest_sub_le_mul hmax (ulpExp_cents k)

theorem cents_ofCents {k : ℤ} (hk : |k| < 10 ^ 10) : cents (ofCents k) = k := by
  have herr := abs_le.mp (abs_nearest_sub_le_of_lt (abs_cents_lt hk))
  have hval : (ofCents k).val = nearest ((k : ℚ) / 100) := rfl
  rw [← hval] at herr
  norm_num at herr
  rw [cents, Int.floor_eq_iff]
  constructor <;> linarith

theorem price_near {x : Double} (h : IsPrice x) :
    |x.val - (cents x : ℚ) / 100| ≤ |(cents x : ℚ) / 100| / 2 ^ 53 := by
  obtain ⟨k, hk, rfl⟩ := h
  rw [cents_ofCents hk]
  exact abs_ofCents_sub_le hk

/-! ## Sums of prices -/

/-- The exact sum, in cents. -/
def sumCents {α : Type} (x : α → Double) (l : List α) : ℤ := (l.map fun a => cents (x a)).sum

/-- The cents moved, in and out. -/
def volume {α : Type} (x : α → Double) (l : List α) : ℤ := (l.map fun a => |cents (x a)|).sum

/-- `n` amounts of `K` cents in all, whatever their signs. -/
def Moderate (n : ℕ) (K : ℤ) : Prop := (n + 1) * (K + 1) ≤ 2 ^ 50

/-- What one addition may be off by. -/
def slack (K : ℤ) : ℚ := (K : ℚ) / 100 / 2 ^ 51

/-- A text of `k` cents; a zero may have a sign. -/
def ShowsCents (text : Bytes) (k : ℤ) : Prop :=
  text = unitsText 2 k ∨ k = 0 ∧ text = 45 :: unitsText 2 0

theorem hundredth_eq (K : ℤ) : (K : ℚ) / 100 = 2 ^ 51 * slack K := by
  unfold slack
  field_simp

theorem slack_nonneg {K : ℤ} (hK : 0 ≤ K) : 0 ≤ slack K := by
  have hq : (0 : ℚ) ≤ K := by exact_mod_cast hK
  unfold slack
  positivity

section Moderate

variable {n : ℕ} {K : ℤ} (hm : Moderate n K) (hK : 0 ≤ K)

include hm

theorem slack_lt : (n + 1) * slack K < 1 / 200 := by
  have hlt : ((n : ℤ) + 1) * K < 2 ^ 50 := by
    unfold Moderate at hm
    linarith [Int.natCast_nonneg n]
  have hq : ((n : ℚ) + 1) * K < 2 ^ 50 := by exact_mod_cast hlt
  have he : ((n : ℚ) + 1) * slack K = ((n : ℚ) + 1) * K / 100 / 2 ^ 51 := by
    unfold slack
    ring
  rw [he]
  norm_num at hq ⊢
  linarith

include hK

theorem count_le : (n : ℚ) + 1 ≤ 2 ^ 50 := by
  have hle : ((n : ℤ) + 1) ≤ 2 ^ 50 := by
    unfold Moderate at hm
    nlinarith [Int.natCast_nonneg n]
  exact_mod_cast hle

theorem total_le : (K : ℚ) ≤ 2 ^ 50 := by
  have hle : K ≤ 2 ^ 50 := by
    unfold Moderate at hm
    nlinarith [Int.natCast_nonneg n]
  exact_mod_cast hle

end Moderate

section Sums

variable {α : Type} {x : α → Double} {l : List α} {K : ℤ}

theorem sum_hundredths (f : α → ℤ) (l : List α) :
    (l.map fun a => (f a : ℚ) / 100).sum = ((l.map f).sum : ℤ) / 100 := by
  induction l with
  | nil => simp
  | cons a l ih =>
    rw [List.map_cons, List.sum_cons, ih, List.map_cons, List.sum_cons]
    push_cast
    ring

theorem volume_nonneg (x : α → Double) (l : List α) : 0 ≤ volume x l :=
  List.sum_nonneg fun y hy => by
    obtain ⟨a, _, rfl⟩ := List.mem_map.mp hy
    exact abs_nonneg _

theorem volume_filter_le (x : α → Double) (l : List α) (p : α → Bool) :
    volume x (l.filter p) ≤ volume x l := by
  refine ((List.filter_sublist (l := l)).map _).sum_le_sum fun y hy => ?_
  obtain ⟨a, _, rfl⟩ := List.mem_map.mp hy
  exact abs_nonneg _

theorem abs_sumCents_le (x : α → Double) (l : List α) :
    |sumCents x l| ≤ volume x l := by
  have habs := List.le_sum_of_subadditive (fun k : ℤ => |k|) abs_zero.le abs_add_le
    (l.map fun a => cents (x a))
  rwa [List.map_map] at habs

/-- The amounts that meet `p`, added up. -/
theorem sum_near_cents (hp : ∀ a ∈ l, IsPrice (x a))
    (hK : volume x l ≤ K) (hm : Moderate l.length K) (p : α → Bool) :
    Near (sum x (l.filter p)) ((sumCents x (l.filter p) : ℚ) / 100)
      ((l.filter p).length * slack K) := by
  have hK0 : 0 ≤ K := (volume_nonneg x l).trans hK
  have hlen : (l.filter p).length ≤ l.length := List.length_filter_le p l
  have hcount : l.length ≤ 2 ^ 50 := by
    have hq := count_le hm hK0
    exact_mod_cast (by linarith : (l.length : ℚ) ≤ 2 ^ 50)
  have hmax : 16 * ((K : ℚ) / 100) + 1 ≤ maxDouble := by
    have htotal := total_le hm hK0
    have hpow := two_pow_le_maxDouble (n := 60) (by norm_num)
    norm_num at htotal hpow
    linarith
  have hS : ((l.filter p).map fun a => |(cents (x a) : ℚ) / 100|).sum ≤ (K : ℚ) / 100 := by
    have hle : volume x (l.filter p) ≤ K := (volume_filter_le x l p).trans hK
    have habs : ∀ a, |(cents (x a) : ℚ) / 100| = ((|cents (x a)| : ℤ) : ℚ) / 100 := by
      intro a
      rw [abs_div, abs_of_pos (by norm_num : (0 : ℚ) < 100), Int.cast_abs]
    simp only [habs]
    rw [sum_hundredths fun a => |cents (x a)|]
    have hq : (volume x (l.filter p) : ℚ) ≤ K := by exact_mod_cast hle
    unfold volume at hq
    linarith
  have hnear := sum_near x hmax (fun a ha => price_near (hp a (List.mem_of_mem_filter ha))) hS
    (by omega)
  rw [sum_hundredths fun a => cents (x a)] at hnear
  exact hnear

theorem abs_exact_le (hK : volume x l ≤ K) (p : α → Bool) :
    |(sumCents x (l.filter p) : ℚ) / 100| ≤ (K : ℚ) / 100 := by
  have hle : |sumCents x (l.filter p)| ≤ K :=
    (abs_sumCents_le x _).trans ((volume_filter_le x l p).trans hK)
  have hq : |(sumCents x (l.filter p) : ℚ)| ≤ K := by exact_mod_cast hle
  rw [abs_div, abs_of_pos (by norm_num : (0 : ℚ) < 100)]
  linarith

end Sums

section Shown

variable {string : JsNumber → Bytes} {y : JsNumber} {k : ℤ} {e : ℚ}

theorem units_small (hk : |(k : ℚ) / 100| ≤ 2 ^ 50) : |(k : ℚ) / 10 ^ 2| + 1 < 10 ^ 21 := by
  norm_num at hk ⊢
  linarith

theorem shows_of_near (hk : |(k : ℚ) / 100| ≤ 2 ^ 50) (he : e < 1 / 200) (h : Near y (k / 100) e) :
    ShowsCents (toFixed string 2 y) k := by
  refine toFixed_near (units_small hk) (e := e) ?_ ?_
  · norm_num
    linarith
  · norm_num
    exact h

theorem shows_of_near_nonneg (hk : |(k : ℚ) / 100| ≤ 2 ^ 50) (he : e < 1 / 200)
    (h : Near y (k / 100) e) (h0 : ∀ s, y = .fin s → 0 ≤ s.val) :
    toFixed string 2 y = unitsText 2 k := by
  refine toFixed_near_nonneg (units_small hk) (e := e) ?_ ?_ h0
  · norm_num
    linarith
  · norm_num
    exact h

end Shown

theorem length_filters_le {α : Type} {p q : α → Bool} (h : ∀ a, p a = true → q a = false)
    (l : List α) : (l.filter p).length + (l.filter q).length ≤ l.length := by
  induction l with
  | nil => simp
  | cons a l ih =>
    have ha := h a
    rw [List.filter_cons, List.filter_cons]
    cases hp : p a
    · cases q a
      · simp only [Bool.false_eq_true, if_false, List.length_cons]
        omega
      · simp only [Bool.false_eq_true, if_false, if_true, List.length_cons]
        omega
    · simp only [ha hp, Bool.false_eq_true, if_false, if_true, List.length_cons]
      omega

section Figures

variable {α : Type} {x : α → Double} {l : List α} {K : ℤ} {string : JsNumber → Bytes}
  (hp : ∀ a ∈ l, IsPrice (x a)) (hK : volume x l ≤ K) (hm : Moderate l.length K)

include hK hm

/-- How far a sum may be off. -/
theorem off_lt (p : α → Bool) : ((l.filter p).length : ℚ) * slack K < 1 / 200 := by
  have hK0 : 0 ≤ K := (volume_nonneg x l).trans hK
  have hlen : ((l.filter p).length : ℚ) ≤ l.length + 1 := by
    have hle := List.length_filter_le p l
    exact_mod_cast (by omega : (l.filter p).length ≤ l.length + 1)
  exact (mul_le_mul_of_nonneg_right hlen (slack_nonneg hK0)).trans_lt (slack_lt hm)

theorem exact_small (p : α → Bool) : |(sumCents x (l.filter p) : ℚ) / 100| ≤ 2 ^ 50 := by
  have hK0 : 0 ≤ K := (volume_nonneg x l).trans hK
  have htotal := total_le hm hK0
  have hle := abs_exact_le hK p
  norm_num at htotal ⊢
  linarith

include hp

/-- A sum shows as it is. -/
theorem sum_shows (p : α → Bool) :
    ShowsCents (toFixed string 2 (sum x (l.filter p))) (sumCents x (l.filter p)) :=
  shows_of_near (exact_small hK hm p) (off_lt hK hm p) (sum_near_cents hp hK hm p)

/-- And so does the difference of two. -/
theorem difference_shows {p q : α → Bool} (h : ∀ a, p a = true → q a = false) :
    ShowsCents (toFixed string 2 ((sum x (l.filter p)).sub (sum x (l.filter q))))
      (sumCents x (l.filter p) - sumCents x (l.filter q)) := by
  have hK0 : 0 ≤ K := (volume_nonneg x l).trans hK
  have hu := slack_nonneg hK0
  have hslack := slack_lt hm
  have hcount := count_le hm hK0
  have htotal := total_le hm hK0
  have hunit := hundredth_eq K
  have hP := abs_exact_le hK p
  have hQ := abs_exact_le hK q
  have hPQ := abs_sub ((sumCents x (l.filter p) : ℚ) / 100) (sumCents x (l.filter q) / 100)
  have hlens : ((l.filter p).length : ℚ) * slack K + (l.filter q).length * slack K ≤
      l.length * slack K := by
    rw [← add_mul]
    refine mul_le_mul_of_nonneg_right ?_ hu
    exact_mod_cast length_filters_le h l
  have hprod : (l.length : ℚ) * slack K ≤ 2 ^ 50 * slack K :=
    mul_le_mul_of_nonneg_right (by linarith) hu
  have hmax := two_pow_le_maxDouble (n := 60) (by norm_num)
  have hnear := (sum_near_cents hp hK hm p).sub (sum_near_cents hp hK hm q) (by
    norm_num at hPQ htotal hmax ⊢
    linarith)
  rw [← sub_div, ← Int.cast_sub] at hnear
  refine shows_of_near ?_ ?_ hnear
  · rw [Int.cast_sub, sub_div]
    norm_num at htotal ⊢
    linarith
  · rw [Int.cast_sub, sub_div]
    norm_num at hprod hunit ⊢
    linarith

end Figures

/-! ## The Dashboard -/

namespace Dashboard

structure Stats where
  balance : JsNumber
  income : JsNumber
  expense : JsNumber
  monthIncome : JsNumber
  monthExpense : JsNumber

/-- mirrors src/frontend/src/pages/Dashboard.jsx:140-156 -/
def stats (o : Offset) (now : Instant) (expenses : List Expense) : Stats :=
  let income := sum Expense.amount (expenses.filter fun e => isIncome (.ofExpense e))
  let expense := sum Expense.amount (expenses.filter fun e => isExpense (.ofExpense e))
  let currentMonthData := expenses.filter fun e => inCurrentMonth o now (.ofExpense e)
  { balance := income.sub expense
    income := income
    expense := expense
    monthIncome := sum Expense.amount (currentMonthData.filter fun e => isIncome (.ofExpense e))
    monthExpense := sum Expense.amount (currentMonthData.filter fun e => isExpense (.ofExpense e)) }

structure Cards where
  balance : Bytes
  income : Bytes
  expense : Bytes
  savings : Bytes

/-- The numbers on the cards.
mirrors src/frontend/src/pages/Dashboard.jsx:232-259 -/
def cards (string : JsNumber → Bytes) (stats : Stats) (savingsAmount : JsNumber) : Cards where
  balance := toFixed string 2 stats.balance
  income := toFixed string 2 stats.income
  expense := toFixed string 2 stats.expense
  savings := toFixed string 2 savingsAmount

/-- The four sums, in cents. -/
structure Exact where
  income : ℤ
  expense : ℤ
  savings : ℤ

def exact (expenses : List Expense) (savings : List SavingTx) : Exact where
  income := sumCents Expense.amount (expenses.filter fun e => isIncome (.ofExpense e))
  expense := sumCents Expense.amount (expenses.filter fun e => isExpense (.ofExpense e))
  savings := sumCents SavingTx.amount savings

/-- The cards show the exact sums. -/
structure Cards.Show (c : Cards) (x : Exact) : Prop where
  balance : ShowsCents c.balance (x.income - x.expense)
  income : ShowsCents c.income x.income
  expense : ShowsCents c.expense x.expense
  savings : ShowsCents c.savings x.savings

theorem income_not_expense (e : Expense) (h : isIncome (.ofExpense e) = true) :
    isExpense (.ofExpense e) = false := by
  have htype : (Item.ofExpense e).type = ascii "income" := eq_of_beq h
  rw [isExpense, htype]
  decide

/-- **The cards.** In whatever order the entries come. -/
theorem cards_exact (string : JsNumber → Bytes) (o : Offset) (now : Instant)
    {expenses : List Expense} {savings : List SavingTx}
    (he : ∀ e ∈ expenses, IsPrice e.amount) (hs : ∀ s ∈ savings, IsPrice s.amount)
    (hme : Moderate expenses.length (volume Expense.amount expenses))
    (hms : Moderate savings.length (volume SavingTx.amount savings)) :
    (cards string (stats o now expenses) (sum SavingTx.amount savings)).Show
      (exact expenses savings) := by
  refine ⟨?_, ?_, ?_, ?_⟩
  · exact difference_shows he (le_refl _) hme income_not_expense
  · exact sum_shows he (le_refl _) hme _
  · exact sum_shows he (le_refl _) hme _
  · have hall : ShowsCents (toFixed string 2 _) _ := sum_shows hs (le_refl _) hms fun _ => true
    rwa [List.filter_true] at hall

/-- A zero with a sign. -/
example : toFixed (fun _ => []) 2 ((sum ofCents [30]).sub (sum ofCents [10, 20])) =
    ascii "-0.00" := by decide +kernel

end Dashboard

/-! ## The Budgets -/

namespace Budgets

/-- mirrors src/frontend/src/pages/Budgets.jsx:104 -/
def spent (category_name : String) (expenses : List Expense) : JsNumber :=
  sum Expense.amount (expenses.filter fun e => ofCategory category_name (.ofExpense e))

/-- `b.target_amount - spent > 0 ? b.target_amount - spent : 0` -/
def left (spent : JsNumber) (target_amount : Double) : JsNumber :=
  let left := (JsNumber.fin target_amount).sub spent
  if left.gt (.fin .zero) then left else .fin .zero

structure Card where
  isExceeded : Bool
  spent : Bytes
  left : Bytes

/-- The numbers shown of a budget, and whether they are red.
mirrors src/frontend/src/pages/Budgets.jsx:104-120 -/
def card (string : JsNumber → Bytes) (category_name : String) (target_amount : Double)
    (expenses : List Expense) : Card :=
  let spent := spent category_name expenses
  { isExceeded := spent.gt (.fin target_amount)
    spent := toFixed string 2 spent
    left := toFixed string 2 (left spent target_amount) }

/-- The card of `s` cents spent of `t`; one that is met to the cent may be red. -/
structure Card.Show (c : Card) (s t : ℤ) : Prop where
  isExceeded : s ≠ t → c.isExceeded = decide (t < s)
  spent : ShowsCents c.spent s
  left : c.left = unitsText 2 (max (t - s) 0)

section Left

variable {string : JsNumber → Bytes} {y : JsNumber} {s t : ℤ} {d : ℚ} {target : Double}

theorem left_shows (hs : |(s : ℚ) / 100| ≤ 2 ^ 49) (ht : |(t : ℚ) / 100| ≤ 2 ^ 49)
    (hy : Near (.sub (.fin target) y) ((t : ℚ) / 100 - (s : ℚ) / 100) d) (hd : d < 1 / 200) :
    toFixed string 2 (left y target) = unitsText 2 (max (t - s) 0) := by
  have hts : |((t - s : ℤ) : ℚ) / 100| ≤ 2 ^ 50 := by
    have hsub := abs_sub ((t : ℚ) / 100) (s / 100)
    rw [Int.cast_sub, sub_div]
    norm_num at hs ht ⊢
    linarith
  have hzero : Near (.fin .zero) 0 0 := ⟨.zero, rfl, by simp [Double.zero]⟩
  have hnil : toFixed string 2 (.fin .zero) = unitsText 2 0 := by
    refine shows_of_near_nonneg (by norm_num) (by norm_num) (e := 0) ?_ ?_
    · rwa [Int.cast_zero, zero_div]
    · intro z hz
      cases hz
      exact le_refl _
  unfold left
  rcases lt_trichotomy t s with hlt | rfl | hgt
  · -- spent: the difference is below zero
    have hq : (t : ℚ) / 100 - s / 100 ≤ -(1 / 100) := by
      have hle : (t : ℚ) + 1 ≤ s := by exact_mod_cast hlt
      linarith
    have hcmp := hy.gt hzero (by
      rw [sub_zero, abs_of_neg (by linarith)]
      linarith)
    rw [decide_eq_false (by linarith)] at hcmp
    simp only [hcmp, Bool.false_eq_true, if_false]
    rw [hnil, max_eq_right (by omega)]
  · -- met to the cent: a zero in either case
    rw [sub_self, max_self]
    rw [sub_self] at hy
    dsimp only
    split
    · rename_i hpos
      refine shows_of_near_nonneg (by norm_num) hd (by rwa [Int.cast_zero, zero_div]) ?_
      intro z hz
      rw [hz] at hpos
      exact (of_decide_eq_true hpos).le
    · exact hnil
  · have hq : 1 / 100 ≤ (t : ℚ) / 100 - s / 100 := by
      have hle : (s : ℚ) + 1 ≤ t := by exact_mod_cast hgt
      linarith
    have hcmp := hy.gt hzero (by
      rw [sub_zero, abs_of_pos (by linarith)]
      linarith)
    rw [decide_eq_true (by linarith)] at hcmp
    simp only [hcmp, if_true]
    rw [max_eq_left (by omega)]
    refine shows_of_near_nonneg hts hd (by rwa [Int.cast_sub, sub_div]) ?_
    intro z hz
    rw [hz] at hcmp
    exact (of_decide_eq_true hcmp).le

end Left

/-- **The Budgets.** -/
theorem card_exact (string : JsNumber → Bytes) (category_name : String) {target_amount : Double}
    {expenses : List Expense} (he : ∀ e ∈ expenses, IsPrice e.amount) (ht : IsPrice target_amount)
    (hm : Moderate expenses.length (volume Expense.amount expenses + |cents target_amount|)) :
    (card string category_name target_amount expenses).Show
      (sumCents Expense.amount (expenses.filter fun e => ofCategory category_name (.ofExpense e)))
      (cents target_amount) := by
  obtain ⟨K, hK⟩ : ∃ K, K = volume Expense.amount expenses + |cents target_amount| := ⟨_, rfl⟩
  rw [← hK] at hm
  have hvol := volume_nonneg Expense.amount expenses
  have htarget := abs_nonneg (cents target_amount)
  have hK0 : 0 ≤ K := by omega
  have hKe : volume Expense.amount expenses ≤ K := by omega
  obtain ⟨p, hp⟩ : ∃ p : Expense → Bool, p = fun e => ofCategory category_name (.ofExpense e) :=
    ⟨_, rfl⟩
  have hspent : spent category_name expenses = sum Expense.amount (expenses.filter p) := hp ▸ rfl
  have hu := slack_nonneg hK0
  have hslack := slack_lt hm
  have hcount := count_le hm hK0
  have htotal := total_le hm hK0
  have hs := abs_exact_le hKe p
  have ht' : |(cents target_amount : ℚ) / 100| ≤ (K : ℚ) / 100 := by
    have hle : |(cents target_amount : ℚ)| ≤ K := by exact_mod_cast (by omega : _ ≤ K)
    rw [abs_div, abs_of_pos (by norm_num : (0 : ℚ) < 100)]
    linarith
  have hnear := sum_near_cents he hKe hm p
  have hoff := off_lt hKe hm p
  have hcap : Near (.fin target_amount) ((cents target_amount : ℚ) / 100)
      (|(cents target_amount : ℚ) / 100| / 2 ^ 53) := ⟨_, rfl, price_near ht⟩
  rw [← hp]
  refine ⟨fun hne => ?_, ?_, ?_⟩
  · show (spent category_name expenses).gt (.fin target_amount) = _
    have hapart : 1 / 100 ≤ |(sumCents Expense.amount (expenses.filter p) : ℚ) / 100 -
        (cents target_amount : ℚ) / 100| := by
      rw [← sub_div, ← Int.cast_sub, abs_div, abs_of_pos (by norm_num : (0 : ℚ) < 100)]
      have hone : (1 : ℚ) ≤ |((sumCents Expense.amount (expenses.filter p) -
          cents target_amount : ℤ) : ℚ)| := by
        exact_mod_cast Int.one_le_abs (sub_ne_zero.mpr hne)
      linarith
    rw [hspent, hnear.gt hcap]
    · refine decide_eq_decide.mpr ?_
      rw [div_lt_div_iff_of_pos_right (by norm_num)]
      exact Int.cast_lt
    · norm_num at htotal ⊢
      linarith
  · show ShowsCents (toFixed string 2 (spent category_name expenses)) _
    rw [hspent]
    exact sum_shows he hKe hm p
  · show toFixed string 2 (left (spent category_name expenses) target_amount) = _
    rw [hspent]
    refine left_shows ?_ ?_ (hcap.sub hnear ?_) ?_
    · norm_num at htotal ⊢
      linarith
    · norm_num at htotal ⊢
      linarith
    · have hsub := abs_sub ((cents target_amount : ℚ) / 100)
        ((sumCents Expense.amount (expenses.filter p) : ℚ) / 100)
      have hmax := two_pow_le_maxDouble (n := 60) (by norm_num)
      norm_num at htotal hmax hsub ⊢
      linarith
    · have hsub := abs_sub ((cents target_amount : ℚ) / 100)
        ((sumCents Expense.amount (expenses.filter p) : ℚ) / 100)
      have hlen : ((expenses.filter p).length : ℚ) * slack K ≤ expenses.length * slack K :=
        mul_le_mul_of_nonneg_right (by exact_mod_cast List.length_filter_le p expenses) hu
      have hprod : (expenses.length : ℚ) * slack K ≤ 2 ^ 50 * slack K :=
        mul_le_mul_of_nonneg_right (by linarith) hu
      have hunit := hundredth_eq K
      norm_num at hsub hprod hunit ⊢
      linarith

/-- A cap of 0.30, met to the cent, is exceeded. -/
example : (sum ofCents [10, 20]).gt (.fin (ofCents 30)) = true := by decide +kernel

end Budgets

/-! ## From the forms to the cards -/

/-- A user's entries, budgets and savings. -/
def expensesFor (L : Ledger) (u : Int32) : List Expense := L.Expenses.filter fun e => e.user_id == u

def budgetsFor (L : Ledger) (u : Int32) : List Budget := L.Budgets.filter fun b => b.user_id == u

def savingsFor (L : Ledger) (u : Int32) : List SavingTx := L.Savings.filter fun s => s.user_id == u

namespace Dashboard

theorem sumCents_perm {α : Type} {x : α → Double} {l l' : List α} (h : l.Perm l') :
    sumCents x l = sumCents x l' := (h.map _).sum_eq

theorem volume_perm {α : Type} {x : α → Double} {l l' : List α} (h : l.Perm l') :
    volume x l = volume x l' := (h.map _).sum_eq

theorem exact_perm {l l' : List Expense} (h : l.Perm l') (savings : List SavingTx) :
    exact l savings = exact l' savings := by
  unfold exact
  rw [sumCents_perm (h.filter _), sumCents_perm (h.filter _)]

theorem sum_amounts (l : List SavingTx) : sum id (l.map SavingTx.amount) = sum SavingTx.amount l := by
  unfold sum
  rw [List.foldl_map]
  rfl

/-- What the cards show of the texts of the two lists. -/
def shown (string : JsNumber → Bytes) (o : Offset) (now : Instant)
    (data sData : JsonText.Value) : Cards :=
  cards string (stats o now (Dashboard.processed (expensesOf data))) (sum id (amountsOf sData))

end Dashboard

/-! ### A coffee and a cap -/

theorem cap_fits : MySql.plain.fits 255 (ascii "Food") = true := by decide

/-- A cap of 5.00 on food. -/
def capForm : BudgetForm MySql.plain where
  category_name := ascii "Food"
  cents := 500
  fits := cap_fits
  inRange := coffee_inRange

def capText : Bytes := ascii "\x7b\"category_name\":\"Food\",\"target_amount\":5\x7d"

theorem cap_stringified : Stringified (.budget capForm) capText := by
  exact .budget capForm (shownDigit 5 (by decide) (by decide) five_val)

theorem cap_plain : ∀ s ∈ (Form.budget capForm).texts, Plain s := by decide

def postCap : Call := ⟨.postBudgets, bearer annToken (bodyOf capText), .none⟩

def listBudgets : Call := ⟨.getBudgets, bearer annToken none, .none⟩

def listSavings : Call := ⟨.getSavings, bearer annToken none, .none⟩

/-- Ann's day. -/
def day : List Call := [postCoffee, postCap, listBudgets, listLunch false, listSavings]

theorem day_sent : ∀ call ∈ day, Sent MySql.plain (authenticate Crypto.zero) call := by
  intro call hcall
  simp only [day, List.mem_cons, List.not_mem_nil, or_false] at hcall
  rcases hcall with rfl | rfl | rfl | rfl | rfl
  · exact .post (.expense coffeeForm) coffeeText (acting_ann _ _ _) rfl coffee_stringified rfl
      coffee_plain
  · exact .post (.budget capForm) capText (acting_ann _ _ _) rfl cap_stringified rfl cap_plain
  · exact .get .Budgets (acting_ann _ _ _) rfl
  · exact .get .Expenses (acting_ann _ _ _) rfl
  · exact .get .Savings (acting_ann _ _ _) rfl

theorem day_done : ListsDone Crypto.zero (authenticate Crypto.zero) MySql.plain (fun _ _ => none)
    annsHome day := by
  refine ⟨?_, ?_, ?_, ?_, ?_, trivial⟩
  · intro k hroute
    cases k <;> cases hroute
  · intro k hroute
    cases k <;> cases hroute
  all_goals
    intro k _ hf
    cases hf

theorem noon_nonneg : (0 : ℤ) ≤ 1714564800000 := by decide

theorem noon_le : (1714564800000 : ℤ) ≤ 8640000000000000 := by decide

/-- 2024-05-01, 12:00 UTC. -/
def noon : Instant := ⟨1714564800000, noon_nonneg, noon_le⟩

/-! ### The pages -/

/-- **What was entered is what the Dashboard adds up.** Whatever the pages sent before
each of the two lists, and in whatever order the members of their objects arrive, the
cards show the sums of the ledger to the cent. -/
theorem dashboard_shows_ledger (C : Crypto) (auth : Request → Int32) (ms : MySql)
    (other : Exec Db Bytes ResultSet) (db : Db) (hempty : ledgerOf db = .empty) (calls : List Call)
    (hcalls : ∀ call ∈ calls, Sent ms auth call) (hdone : ListsDone C auth ms other db calls)
    (xs ys xs' ys' : List Call) (call call' : Call)
    (hsplit : calls = xs ++ call :: ys) (hroute : call.route = .getExpenses)
    (hsplit' : calls = xs' ++ call' :: ys') (hroute' : call'.route = .getSavings)
    (string : JsNumber → Bytes) (o : Offset) (now : Instant) :
    ∃ L L',
      Machine.AbsRun (Answered ms auth) .empty ((app C auth ms other).history (.start db) xs) L ∧
      Machine.AbsRun (Answered ms auth) .empty ((app C auth ms other).history (.start db) xs') L' ∧
      (∃ data, Received C auth ms other db xs call data) ∧
      (∃ sData, Received C auth ms other db xs' call' sData) ∧
      let expenses := expensesFor L (auth call.req)
      let savings := savingsFor L' (auth call'.req)
      Moderate expenses.length (volume Expense.amount expenses) →
      Moderate savings.length (volume SavingTx.amount savings) →
      ∀ data sData, Received C auth ms other db xs call data →
        Received C auth ms other db xs' call' sData →
        (Dashboard.shown string o now data sData).Show (Dashboard.exact expenses savings) := by
  obtain ⟨L, hrun, hpriced, hdata, hshows⟩ :=
    received (k := .Expenses) hempty hcalls hdone hsplit hroute
  obtain ⟨L', hrun', hpriced', hsData, hshows'⟩ :=
    received (k := .Savings) hempty hcalls hdone hsplit' hroute'
  refine ⟨L, L', hrun, hrun', hdata, hsData, fun hme hms data sData hd hs => ?_⟩
  have hexpenses : expensesOf data = expensesFor L (auth call.req) := expensesOf_shows (hshows data hd)
  have hsavings : amountsOf sData = (savingsFor L' (auth call'.req)).map SavingTx.amount :=
    amountsOf_shows (hshows' sData hs)
  have hperm : (L5.Dashboard.processed (expensesFor L (auth call.req))).Perm
      (expensesFor L (auth call.req)) := List.perm_insertionSort _ _
  unfold Dashboard.shown
  rw [hexpenses, hsavings, Dashboard.sum_amounts, ← Dashboard.exact_perm hperm]
  refine Dashboard.cards_exact string o now ?_ ?_ ?_ hms
  · intro e he
    exact hpriced.Expenses e (List.mem_of_mem_filter (hperm.mem_iff.mp he))
  · intro x hx
    exact hpriced'.Savings x (List.mem_of_mem_filter hx)
  · rwa [hperm.length_eq, Dashboard.volume_perm hperm]

/-- The cards after the coffee. -/
theorem dashboard_shows_ledger_day : ∃ L L',
    Machine.AbsRun (Answered MySql.plain (authenticate Crypto.zero)) .empty
      ((app Crypto.zero (authenticate Crypto.zero) MySql.plain fun _ _ => none).history
        (.start annsHome) [postCoffee, postCap, listBudgets]) L ∧
    Machine.AbsRun (Answered MySql.plain (authenticate Crypto.zero)) .empty
      ((app Crypto.zero (authenticate Crypto.zero) MySql.plain fun _ _ => none).history
        (.start annsHome) [postCoffee, postCap, listBudgets, listLunch false]) L' ∧
    (∃ data, Received Crypto.zero (authenticate Crypto.zero) MySql.plain (fun _ _ => none)
      annsHome [postCoffee, postCap, listBudgets] (listLunch false) data) ∧
    (∃ sData, Received Crypto.zero (authenticate Crypto.zero) MySql.plain (fun _ _ => none)
      annsHome [postCoffee, postCap, listBudgets, listLunch false] listSavings sData) ∧
    let expenses := expensesFor L (authenticate Crypto.zero (listLunch false).req)
    let savings := savingsFor L' (authenticate Crypto.zero listSavings.req)
    Moderate expenses.length (volume Expense.amount expenses) →
    Moderate savings.length (volume SavingTx.amount savings) →
    ∀ data sData, Received Crypto.zero (authenticate Crypto.zero) MySql.plain (fun _ _ => none)
        annsHome [postCoffee, postCap, listBudgets] (listLunch false) data →
      Received Crypto.zero (authenticate Crypto.zero) MySql.plain (fun _ _ => none)
        annsHome [postCoffee, postCap, listBudgets, listLunch false] listSavings sData →
      (Dashboard.shown (fun _ => []) Offset.utc noon data sData).Show
        (Dashboard.exact expenses savings) :=
  dashboard_shows_ledger Crypto.zero (authenticate Crypto.zero) MySql.plain (fun _ _ => none) annsHome
    rfl day day_sent day_done [postCoffee, postCap, listBudgets] [listSavings]
    [postCoffee, postCap, listBudgets, listLunch false] [] (listLunch false) listSavings rfl rfl rfl
    rfl (fun _ => []) Offset.utc noon

/-- **And so do the Budgets**, of the two lists they are fetched with. -/
theorem budgets_show_ledger (C : Crypto) (auth : Request → Int32) (ms : MySql)
    (other : Exec Db Bytes ResultSet) (db : Db) (hempty : ledgerOf db = .empty) (calls : List Call)
    (hcalls : ∀ call ∈ calls, Sent ms auth call) (hdone : ListsDone C auth ms other db calls)
    (xs ys xs' ys' : List Call) (call call' : Call)
    (hsplit : calls = xs ++ call :: ys) (hroute : call.route = .getBudgets)
    (hsplit' : calls = xs' ++ call' :: ys') (hroute' : call'.route = .getExpenses)
    (string : JsNumber → Bytes) :
    ∃ L L',
      Machine.AbsRun (Answered ms auth) .empty ((app C auth ms other).history (.start db) xs) L ∧
      Machine.AbsRun (Answered ms auth) .empty ((app C auth ms other).history (.start db) xs') L' ∧
      (∃ bData, Received C auth ms other db xs call bData) ∧
      (∃ eData, Received C auth ms other db xs' call' eData) ∧
      let budgets := budgetsFor L (auth call.req)
      let expenses := expensesFor L' (auth call'.req)
      ∀ bData eData, Received C auth ms other db xs call bData →
        Received C auth ms other db xs' call' eData →
        budgetsOf bData = budgets.map .ofBudget ∧
        ∀ b ∈ budgets, ∀ name : String, ascii name = b.category_name →
          Moderate expenses.length (volume Expense.amount expenses + |cents b.target_amount|) →
          (Budgets.card string name b.target_amount (expensesOf eData)).Show
            (sumCents Expense.amount (expenses.filter fun e => ofCategory name (.ofExpense e)))
            (cents b.target_amount) := by
  obtain ⟨L, hrun, hpriced, hbData, hshows⟩ :=
    received (k := .Budgets) hempty hcalls hdone hsplit hroute
  obtain ⟨L', hrun', hpriced', heData, hshows'⟩ :=
    received (k := .Expenses) hempty hcalls hdone hsplit' hroute'
  refine ⟨L, L', hrun, hrun', hbData, heData, fun bData eData hb he => ⟨?_, ?_⟩⟩
  · exact budgetsOf_shows (hshows bData hb)
  · intro b hmem name _ hm
    have hexpenses : expensesOf eData = expensesFor L' (auth call'.req) :=
      expensesOf_shows (hshows' eData he)
    rw [hexpenses]
    refine Budgets.card_exact string name ?_ ?_ hm
    · exact fun e hmem => hpriced'.Expenses e (List.mem_of_mem_filter hmem)
    · exact hpriced.Budgets b (List.mem_of_mem_filter hmem)

/-- Her cap after the coffee. -/
theorem budgets_show_ledger_day : ∃ L L',
    Machine.AbsRun (Answered MySql.plain (authenticate Crypto.zero)) .empty
      ((app Crypto.zero (authenticate Crypto.zero) MySql.plain fun _ _ => none).history
        (.start annsHome) [postCoffee, postCap]) L ∧
    Machine.AbsRun (Answered MySql.plain (authenticate Crypto.zero)) .empty
      ((app Crypto.zero (authenticate Crypto.zero) MySql.plain fun _ _ => none).history
        (.start annsHome) [postCoffee, postCap, listBudgets]) L' ∧
    (∃ bData, Received Crypto.zero (authenticate Crypto.zero) MySql.plain (fun _ _ => none)
      annsHome [postCoffee, postCap] listBudgets bData) ∧
    (∃ eData, Received Crypto.zero (authenticate Crypto.zero) MySql.plain (fun _ _ => none)
      annsHome [postCoffee, postCap, listBudgets] (listLunch false) eData) ∧
    let budgets := budgetsFor L (authenticate Crypto.zero listBudgets.req)
    let expenses := expensesFor L' (authenticate Crypto.zero (listLunch false).req)
    ∀ bData eData, Received Crypto.zero (authenticate Crypto.zero) MySql.plain (fun _ _ => none)
        annsHome [postCoffee, postCap] listBudgets bData →
      Received Crypto.zero (authenticate Crypto.zero) MySql.plain (fun _ _ => none)
        annsHome [postCoffee, postCap, listBudgets] (listLunch false) eData →
      budgetsOf bData = budgets.map .ofBudget ∧
      ∀ b ∈ budgets, ∀ name : String, ascii name = b.category_name →
        Moderate expenses.length (volume Expense.amount expenses + |cents b.target_amount|) →
        (Budgets.card (fun _ => []) name b.target_amount (expensesOf eData)).Show
          (sumCents Expense.amount (expenses.filter fun e => ofCategory name (.ofExpense e)))
          (cents b.target_amount) :=
  budgets_show_ledger Crypto.zero (authenticate Crypto.zero) MySql.plain (fun _ _ => none) annsHome
    rfl day day_sent day_done [postCoffee, postCap] [listLunch false, listSavings]
    [postCoffee, postCap, listBudgets] [listSavings] listBudgets (listLunch false) rfl rfl rfl rfl fun _ => []

end ExpenseTracker.L5.Totals
