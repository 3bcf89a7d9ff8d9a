import ExpenseTracker.L5Pages.Charts

/-!
# The amount spent of a budget

A budget caps the spending of a month, and the Budgets page adds up the expenses of the
budget's category of all months.

* `monthly_iff`: the page counts the expenses of the month exactly when the category has
  no others.
-/
namespace ExpenseTracker.L5.Budgets

open ExpenseTracker.Core ExpenseTracker.Core.JsDate ExpenseTracker.Core.Calendar
open ExpenseTracker.L2.Statement ExpenseTracker.L5.Charts

/-- `e.type === 'expense' && e.category_id == catId` -/
def ofCategory (category_name : String) (e : Item) : Bool :=
  isExpense e && some e.category_id == Labels.Budgets.catId category_name

/-- mirrors src/frontend/src/pages/Budgets.jsx:104 -/
def spent (category_name : String) (expenses : List Item) : ℚ :=
  total (expenses.filter (ofCategory category_name))

/-- mirrors src/frontend/src/pages/Budgets.jsx:106 -/
def isExceeded (spent target_amount : ℚ) : Bool := decide (spent > target_amount)

/-- The amount left.
mirrors src/frontend/src/pages/Budgets.jsx:121 -/
def left (spent target_amount : ℚ) : ℚ :=
  if target_amount - spent > 0 then target_amount - spent else 0

/-- The expenses of the category in the month of a day, at given prices. -/
def monthSpent (price : Item → ℚ) (l : List Item) (category_name : String) (today : ℤ) : ℚ :=
  ((l.filter fun e => ofCategory category_name e &&
    decide (calendarMonth e.expense_date = some (monthOf today))).map price).sum

/-- The page counts the expenses of the category in the current month, and no others:
whatever the entries' amounts and the target, its three figures are those of the month. -/
def Monthly (today : ℤ) (category_name : String) (l : List Item) : Prop :=
  ∀ (price : Item → ℚ) (target_amount : ℚ),
    let spent := spent category_name (l.map (Item.priced price))
    let month := monthSpent price l category_name today
    spent = month ∧ isExceeded spent target_amount = isExceeded month target_amount ∧
      left spent target_amount = left month target_amount

/-- For every list of entries, budget and current day: the amount spent, the exceeded flag
and the amount left count exactly the month's expenses of the category if and only if the
list has no expense of the category in another month. -/
theorem monthly_iff (today : ℤ) (category_name : String) (l : List Item) :
    Monthly today category_name l ↔ ∀ e ∈ l, ofCategory category_name e = true →
      calendarMonth e.expense_date = some (monthOf today) := by
  have hspent : ∀ price, spent category_name (l.map (Item.priced price)) =
      ((l.filter (ofCategory category_name)).map price).sum := by
    intro price
    unfold spent
    rw [total_filter]
    exact sumOf_priced (fun _ _ => rfl) price l
  have hcount : (∀ price, spent category_name (l.map (Item.priced price)) =
      monthSpent price l category_name today) ↔ ∀ e ∈ l, ofCategory category_name e = true →
        calendarMonth e.expense_date = some (monthOf today) := by
    simp only [hspent]
    refine sums_agree_iff.trans (forall₂_congr fun e _ => ?_)
    cases ofCategory category_name e <;> simp
  rw [← hcount]
  constructor
  · intro h price
    exact (h price 0).1
  · intro h price target_amount
    dsimp only
    rw [h price]
    exact ⟨rfl, rfl, rfl⟩

/-! ## Two months of groceries -/

/-- Food of category 3, as the page has it. -/
def aprilFood : Item := ⟨3, 80, ascii "2024-04-20", ascii "expense"⟩

def mayFood : Item := ⟨3, 50, ascii "2024-05-03", ascii "expense"⟩

/-- On 2024-05-15 a cap of 100 is exceeded, with 50 spent in May. -/
theorem monthly_food :
    monthOf 19858 = 12 * 2024 + 4 ∧
      spent "Food" [aprilFood, mayFood] = 130 ∧
      isExceeded (spent "Food" [aprilFood, mayFood]) 100 = true ∧
      monthSpent Item.amount [aprilFood, mayFood] "Food" 19858 = 50 ∧
      ¬ Monthly 19858 "Food" [aprilFood, mayFood] := by
  refine ⟨by decide, by decide +kernel, by decide +kernel, by decide +kernel, fun h => ?_⟩
  have hspent := (h Item.amount 0).1
  revert hspent
  decide +kernel

end ExpenseTracker.L5.Budgets
