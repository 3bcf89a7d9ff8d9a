import ExpenseTracker.Core.Client
import ExpenseTracker.L2Store.Statement

/-!
# What the server does with a statement

`exec` reads each statement as the parameterised statement it is meant to be:
a row is stored whole or the statement fails and stores nothing (strict mode,
autocommit). A string argument with a NUL byte never arrives: `c_str()` ends
the text inside the open literal, and the statement fails.

* `exec_insert…`, `exec_select…`, `exec_deleteExpense`: one lemma a statement
  saying all that it can do.
* `exec_stores`, `exec_selects`: which statements leave a result set to fetch.
* `exec_noNul`: the string arguments of a statement carried out have no NUL.
-/
namespace ExpenseTracker.L2.Server

open ExpenseTracker.Core ExpenseTracker.L1.Amount
open ExpenseTracker.L2.Schema ExpenseTracker.L2.Statement

/-! ## Result sets -/

/-- A column of a fetched row: NULL, or the text of a value. The text of a
number reads back as that number. -/
inductive Cell where
  | null
  | int (i : Int32)
  | decimal (cents : ℤ)
  | double (x : Double)
  | text (s : Bytes)

abbrev Row := List Cell
abbrev ResultSet := List Row

def Cell.ofInt : Option Int32 → Cell
  | none => .null
  | some i => .int i

def Cell.ofDouble : Option Double → Cell
  | none => .null
  | some x => .double x

def Cell.ofText : Option Bytes → Cell
  | none => .null
  | some s => .text s

/-- `id, password_hash, display_name` -/
def userCells (r : Int32 × UserRow) : Row :=
  [.int r.1, .text r.2.password_hash, .ofText r.2.display_name]

/-- `id, user_id, category_id, amount, description, expense_date, type` -/
def expenseCells (r : Int32 × ExpenseRow) : Row :=
  [.int r.1, .int r.2.user_id, .ofInt r.2.category_id, .decimal r.2.amount,
    .ofText r.2.description, .text r.2.expense_date, .ofText r.2.type]

/-- `id, user_id, category_name, target_amount` -/
def budgetCells (r : Int32 × BudgetRow) : Row :=
  [.int r.1, .ofInt r.2.user_id, .ofText r.2.category_name, .ofDouble r.2.target_amount]

/-- `id, user_id, amount, description, transaction_date` -/
def savingCells (r : Int32 × SavingRow) : Row :=
  [.int r.1, .ofInt r.2.user_id, .ofDouble r.2.amount, .ofText r.2.description,
    .ofText r.2.transaction_date]

/-- `id, user_id, title, target_amount, saved_amount, deadline, priority` -/
def goalCells (r : Int32 × GoalRow) : Row :=
  [.int r.1, .ofInt r.2.user_id, .ofText r.2.title, .ofDouble r.2.target_amount,
    .ofDouble r.2.saved_amount, .ofText r.2.deadline, .ofText r.2.priority]

/-! ## The rows stored -/

variable (ms : MySql)

def userRow (email display_name password_hash : Bytes) : Option UserRow := do
  let email ← storeText ms 255 email
  let display_name ← storeText ms 100 display_name
  let password_hash ← storeText ms 255 password_hash
  return ⟨some display_name, some email, password_hash⟩

def expenseRow (exp : Expense) : Option ExpenseRow := do
  let amount ← storeDecimal (micros exp.amount)
  let description ← storeText ms 255 exp.description
  let expense_date ← storeDate ms exp.expense_date
  let type ← storeType ms exp.type
  return ⟨exp.user_id, some exp.category_id, amount, some description, expense_date, some type⟩

def budgetRow (b : Budget) : Option BudgetRow := do
  let category_name ← storeText ms 255 b.category_name
  let target_amount ← storeDouble ms (micros b.target_amount)
  return ⟨some b.user_id, some category_name, some target_amount⟩

def savingRow (stx : SavingTx) : Option SavingRow := do
  let amount ← storeDouble ms (micros stx.amount)
  let description ← storeText ms 255 stx.description
  let transaction_date ← storeDate ms stx.transaction_date
  return ⟨some stx.user_id, some amount, some description, some transaction_date⟩

def goalRow (g : Goal) : Option GoalRow := do
  let title ← storeText ms 255 g.title
  let target_amount ← storeDouble ms (micros g.target_amount)
  let saved_amount ← storeDouble ms (micros g.saved_amount)
  let deadline ← storeDate ms g.deadline
  let priority ← storeText ms 50 g.priority
  return ⟨some g.user_id, some title, some target_amount, some saved_amount, some deadline,
    some priority⟩

/-! ## Keys -/

/-- The unique keys of `users` have room for the row. -/
def newUser (db : Db) (r : UserRow) : Bool :=
  db.users.rows.all fun o => o.2.email != r.email &&
    !(match o.2.display_name, r.display_name with
      | some a, some b => ms.sameName a b
      | _, _ => false)

/-- The foreign keys of `Expenses`: the user, and the category unless NULL. -/
def foreignKeys (db : Db) (r : ExpenseRow) : Bool :=
  db.users.rows.any (fun o => o.1 == r.user_id) &&
    match r.category_id with
    | none => true
    | some c => db.Categories.contains c

/-! ## Statements -/

/-- The parameterised statement. -/
def execParam (db : Db) : Stmt → Option (Db × Option ResultSet)
  | .insertUser email display_name password_hash => do
    let r ← userRow ms email display_name password_hash
    if newUser ms db r then
      let users ← db.users.insert r
      return ({ db with users }, none)
    else none
  | .selectUser email =>
    some (db, some ((db.users.select fun r => r.email == some email).map userCells))
  | .insertExpense exp => do
    let r ← expenseRow ms exp
    if foreignKeys db r then
      let Expenses ← db.Expenses.insert r
      return ({ db with Expenses }, none)
    else none
  | .selectExpenses user_id =>
    some (db, some ((db.Expenses.select fun r => r.user_id == user_id).map expenseCells))
  | .deleteExpense id => some ({ db with Expenses := db.Expenses.delete id }, none)
  | .insertBudget b => do
    let Budgets ← db.Budgets.insert (← budgetRow ms b)
    return ({ db with Budgets }, none)
  | .selectBudgets user_id =>
    some (db, some ((db.Budgets.select fun r => r.user_id == some user_id).map budgetCells))
  | .insertSaving stx => do
    let Savings ← db.Savings.insert (← savingRow ms stx)
    return ({ db with Savings }, none)
  | .selectSavings user_id =>
    some (db, some ((db.Savings.select fun r => r.user_id == some user_id).map savingCells))
  | .insertGoal g => do
    let Goals ← db.Goals.insert (← goalRow ms g)
    return ({ db with Goals }, none)
  | .selectGoals user_id =>
    some (db, some ((db.Goals.select fun r => r.user_id == some user_id).map goalCells))

/-- A statement as it arrives. -/
def exec : Exec Db Stmt ResultSet := fun db q =>
  if q.strings.any fun s => s.contains 0 then none else execParam ms db q

variable {ms} {db db' : Db} {rs : Option ResultSet}

theorem exec_noNul {q : Stmt} (h : exec ms db q = some (db', rs)) :
    (∀ s ∈ q.strings, (0 : UInt8) ∉ s) ∧ execParam ms db q = some (db', rs) := by
  unfold exec at h
  split at h
  · cases h
  · rename_i hn
    refine ⟨fun s hs h0 => hn ?_, h⟩
    exact List.any_eq_true.mpr ⟨s, hs, List.contains_iff_mem.mpr h0⟩

/-- A statement without string arguments always arrives. -/
theorem exec_of_strings {q : Stmt} (h : q.strings = []) : exec ms db q = execParam ms db q := by
  rw [exec, h]
  rfl

theorem exec_insertUser {e n p : Bytes} (h : exec ms db (.insertUser e n p) = some (db', rs)) :
    ∃ r users, userRow ms e n p = some r ∧ newUser ms db r = true ∧
      db.users.insert r = some users ∧ db' = { db with users } ∧ rs = none := by
  have h := (exec_noNul h).2
  simp only [execParam, Option.bind_eq_bind, Option.bind_eq_some_iff] at h
  obtain ⟨r, hr, h⟩ := h
  split at h
  · rename_i hk
    obtain ⟨users, hu, h⟩ := Option.bind_eq_some_iff.mp h
    cases h
    exact ⟨r, users, hr, hk, hu, rfl, rfl⟩
  · cases h

theorem exec_selectUser {e : Bytes} (h : exec ms db (.selectUser e) = some (db', rs)) :
    db' = db ∧ rs = some ((db.users.select fun r => r.email == some e).map userCells) := by
  cases (exec_noNul h).2
  exact ⟨rfl, rfl⟩

theorem exec_insertExpense {exp : Expense} (h : exec ms db (.insertExpense exp) = some (db', rs)) :
    ∃ r Expenses, expenseRow ms exp = some r ∧ foreignKeys db r = true ∧
      db.Expenses.insert r = some Expenses ∧ db' = { db with Expenses } ∧ rs = none := by
  have h := (exec_noNul h).2
  simp only [execParam, Option.bind_eq_bind, Option.bind_eq_some_iff] at h
  obtain ⟨r, hr, h⟩ := h
  split at h
  · rename_i hk
    obtain ⟨t, ht, h⟩ := Option.bind_eq_some_iff.mp h
    cases h
    exact ⟨r, t, hr, hk, ht, rfl, rfl⟩
  · cases h

theorem exec_insertBudget {b : Budget} (h : exec ms db (.insertBudget b) = some (db', rs)) :
    ∃ r Budgets, budgetRow ms b = some r ∧ db.Budgets.insert r = some Budgets ∧
      db' = { db with Budgets } ∧ rs = none := by
  have h := (exec_noNul h).2
  simp only [execParam, Option.bind_eq_bind, Option.bind_eq_some_iff] at h
  obtain ⟨r, hr, t, ht, h⟩ := h
  cases h
  exact ⟨r, t, hr, ht, rfl, rfl⟩

theorem exec_insertSaving {stx : SavingTx} (h : exec ms db (.insertSaving stx) = some (db', rs)) :
    ∃ r Savings, savingRow ms stx = some r ∧ db.Savings.insert r = some Savings ∧
      db' = { db with Savings } ∧ rs = none := by
  have h := (exec_noNul h).2
  simp only [execParam, Option.bind_eq_bind, Option.bind_eq_some_iff] at h
  obtain ⟨r, hr, t, ht, h⟩ := h
  cases h
  exact ⟨r, t, hr, ht, rfl, rfl⟩

theorem exec_insertGoal {g : Goal} (h : exec ms db (.insertGoal g) = some (db', rs)) :
    ∃ r Goals, goalRow ms g = some r ∧ db.Goals.insert r = some Goals ∧
      db' = { db with Goals } ∧ rs = none := by
  have h := (exec_noNul h).2
  simp only [execParam, Option.bind_eq_bind, Option.bind_eq_some_iff] at h
  obtain ⟨r, hr, t, ht, h⟩ := h
  cases h
  exact ⟨r, t, hr, ht, rfl, rfl⟩

@[simp] theorem exec_deleteExpense (id : Int32) :
    exec ms db (.deleteExpense id) = some ({ db with Expenses := db.Expenses.delete id }, none) :=
  exec_of_strings rfl

@[simp] theorem exec_selectExpenses (u : Int32) : exec ms db (.selectExpenses u) =
    some (db, some ((db.Expenses.select fun r => r.user_id == u).map expenseCells)) :=
  exec_of_strings rfl

@[simp] theorem exec_selectBudgets (u : Int32) : exec ms db (.selectBudgets u) =
    some (db, some ((db.Budgets.select fun r => r.user_id == some u).map budgetCells)) :=
  exec_of_strings rfl

@[simp] theorem exec_selectSavings (u : Int32) : exec ms db (.selectSavings u) =
    some (db, some ((db.Savings.select fun r => r.user_id == some u).map savingCells)) :=
  exec_of_strings rfl

@[simp] theorem exec_selectGoals (u : Int32) : exec ms db (.selectGoals u) =
    some (db, some ((db.Goals.select fun r => r.user_id == some u).map goalCells)) :=
  exec_of_strings rfl

/-! ## Which statements have a result set -/

/-- Statements without a result set. -/
def stores : Stmt → Bool
  | .selectUser _ | .selectExpenses _ | .selectBudgets _ | .selectSavings _ | .selectGoals _ => false
  | _ => true

theorem exec_stores {q : Stmt} (hq : stores q = true) (h : exec ms db q = some (db', rs)) :
    rs = none := by
  cases q with
  | insertUser e n p => obtain ⟨_, _, _, _, _, _, h⟩ := exec_insertUser h; exact h
  | insertExpense exp => obtain ⟨_, _, _, _, _, _, h⟩ := exec_insertExpense h; exact h
  | deleteExpense id => rw [exec_deleteExpense] at h; cases h; rfl
  | insertBudget b => obtain ⟨_, _, _, _, _, h⟩ := exec_insertBudget h; exact h
  | insertSaving stx => obtain ⟨_, _, _, _, _, h⟩ := exec_insertSaving h; exact h
  | insertGoal g => obtain ⟨_, _, _, _, _, h⟩ := exec_insertGoal h; exact h
  | _ => cases hq

theorem exec_selects {q : Stmt} (hq : stores q = false) (h : exec ms db q = some (db', rs)) :
    db' = db ∧ ∃ rows, rs = some rows := by
  cases q with
  | selectUser e => exact ⟨(exec_selectUser h).1, _, (exec_selectUser h).2⟩
  | selectExpenses u => rw [exec_selectExpenses] at h; cases h; exact ⟨rfl, _, rfl⟩
  | selectBudgets u => rw [exec_selectBudgets] at h; cases h; exact ⟨rfl, _, rfl⟩
  | selectSavings u => rw [exec_selectSavings] at h; cases h; exact ⟨rfl, _, rfl⟩
  | selectGoals u => rw [exec_selectGoals] at h; cases h; exact ⟨rfl, _, rfl⟩
  | _ => cases hq

/-! ## What a stored row keeps of its record -/

theorem userRow_eq_some {e n p : Bytes} {r : UserRow} (h : userRow ms e n p = some r) :
    r = ⟨some n, some e, p⟩ := by
  simp only [userRow, Option.bind_eq_bind, Option.bind_eq_some_iff] at h
  obtain ⟨e', he, n', hn, p', hp, h⟩ := h
  cases h
  rw [storeText_eq_some ms he, storeText_eq_some ms hn, storeText_eq_some ms hp]

theorem user_id_expenseRow {exp : Expense} {r : ExpenseRow} (h : expenseRow ms exp = some r) :
    r.user_id = exp.user_id := by
  simp only [expenseRow, Option.bind_eq_bind, Option.bind_eq_some_iff] at h
  obtain ⟨_, _, _, _, _, _, _, _, h⟩ := h
  cases h; rfl

theorem user_id_budgetRow {b : Budget} {r : BudgetRow} (h : budgetRow ms b = some r) :
    r.user_id = some b.user_id := by
  simp only [budgetRow, Option.bind_eq_bind, Option.bind_eq_some_iff] at h
  obtain ⟨_, _, _, _, h⟩ := h
  cases h; rfl

theorem user_id_savingRow {stx : SavingTx} {r : SavingRow} (h : savingRow ms stx = some r) :
    r.user_id = some stx.user_id := by
  simp only [savingRow, Option.bind_eq_bind, Option.bind_eq_some_iff] at h
  obtain ⟨_, _, _, _, _, _, h⟩ := h
  cases h; rfl

theorem user_id_goalRow {g : Goal} {r : GoalRow} (h : goalRow ms g = some r) :
    r.user_id = some g.user_id := by
  simp only [goalRow, Option.bind_eq_bind, Option.bind_eq_some_iff] at h
  obtain ⟨_, _, _, _, _, _, _, _, _, _, h⟩ := h
  cases h; rfl

end ExpenseTracker.L2.Server
