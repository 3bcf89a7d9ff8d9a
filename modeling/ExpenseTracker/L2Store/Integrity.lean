import ExpenseTracker.Core.Evolve
import ExpenseTracker.L2Store.Server

/-!
# What every statement keeps

The constraints of the schema hold of all rows together, and a table only
grows, but for the expenses deleted by their ids.

* `keeps_valid`: every statement keeps the constraints.
* `later_exec`: what a statement does to the tables over time.
-/
namespace ExpenseTracker.L2.Integrity

open ExpenseTracker.Core ExpenseTracker.L1.Amount
open ExpenseTracker.L2.Schema ExpenseTracker.L2.Statement ExpenseTracker.L2.Server

/-! ## Constraints -/

section Rows

variable (ms : MySql)

/-- A text that arrived whole in a `VARCHAR(n)`. -/
structure Varchar (n : ℕ) (s : Bytes) : Prop where
  fits : ms.fits n s = true
  bytes : s.length ≤ 4 * n
  whole : (0 : UInt8) ∉ s

/-- A `DATE`, as it is shown. -/
def Dated (d : Bytes) : Prop := ∀ b ∈ d, isDigit b = true ∨ b = 45

theorem Dated.noNul {d : Bytes} (h : Dated d) : (0 : UInt8) ∉ d := by
  intro h0
  rcases h 0 h0 with h | h <;> cases h

/-- mirrors src/sql/schema.sql:4-9 and src/src/db/db_manager.cpp:25,28 -/
def UserFits (r : UserRow) : Prop := ∃ n e, r.display_name = some n ∧ r.email = some e ∧
  Varchar ms 100 n ∧ Varchar ms 255 e ∧ Varchar ms 255 r.password_hash

/-- mirrors src/sql/schema.sql:16-26 and src/src/db/db_manager.cpp:31 -/
def ExpenseFits (r : ExpenseRow) : Prop := |r.amount| < 10 ^ 10 ∧
  (∃ d, r.description = some d ∧ Varchar ms 255 d) ∧ Dated r.expense_date ∧
  ∃ t, r.type = some t ∧ (t = ascii "income" ∨ t = ascii "expense")

/-- mirrors src/src/db/db_manager.cpp:39 -/
def BudgetFits (r : BudgetRow) : Prop := ∃ u c x, r.user_id = some u ∧ r.category_name = some c ∧
  r.target_amount = some x ∧ Varchar ms 255 c

/-- mirrors src/src/db/db_manager.cpp:40 -/
def SavingFits (r : SavingRow) : Prop := ∃ u x d s, r.user_id = some u ∧ r.amount = some x ∧
  r.description = some d ∧ r.transaction_date = some s ∧ Varchar ms 255 d ∧ Dated s

/-- mirrors src/src/db/db_manager.cpp:43 -/
def GoalFits (r : GoalRow) : Prop := ∃ u t x y s p, r.user_id = some u ∧ r.title = some t ∧
  r.target_amount = some x ∧ r.saved_amount = some y ∧ r.deadline = some s ∧ r.priority = some p ∧
  Varchar ms 255 t ∧ Dated s ∧ Varchar ms 50 p

/-- The display names of two users may stand beside each other. -/
def OtherName (r r' : UserRow) : Prop := ∀ a b, r.display_name = some a → r'.display_name = some b →
  ms.sameName a b = false

end Rows

/-- The constraints of the schema: the types of the columns, the unique keys of `users`, the
foreign keys of `Expenses`, and the categories as they were seeded. -/
structure Valid (ms : MySql) (db : Db) : Prop where
  seeds : db.Categories = Db.migrated.Categories
  users : ∀ r ∈ db.users.rows, UserFits ms r.2
  emails : (db.users.rows.map fun r => r.2.email).Nodup
  names : db.users.rows.Pairwise fun r r' => OtherName ms r.2 r'.2
  Expenses : ∀ r ∈ db.Expenses.rows, ExpenseFits ms r.2
  foreign : ∀ r ∈ db.Expenses.rows, (∃ u ∈ db.users.rows, u.1 = r.2.user_id) ∧
    ∃ c ∈ db.Categories, r.2.category_id = some c
  Budgets : ∀ r ∈ db.Budgets.rows, BudgetFits ms r.2
  Savings : ∀ r ∈ db.Savings.rows, SavingFits ms r.2
  Goals : ∀ r ∈ db.Goals.rows, GoalFits ms r.2

section Exec

variable {ms : MySql} {db db' : Db} {rs : Option ResultSet}

theorem storeText_fits {n : ℕ} {s t : Bytes} (h : storeText ms n s = some t) (h0 : (0 : UInt8) ∉ s) :
    Varchar ms n t := by
  obtain rfl := storeText_eq_some ms h
  unfold storeText at h
  split at h
  · rename_i hfits
    exact ⟨hfits, ms.fits_le n t hfits, h0⟩
  · cases h

theorem userFits_of {e n p : Bytes} {r : UserRow} (h : userRow ms e n p = some r)
    (h0 : ∀ s ∈ [e, n, p], (0 : UInt8) ∉ s) : UserFits ms r := by
  simp only [userRow, Option.bind_eq_bind, Option.bind_eq_some_iff] at h
  obtain ⟨e', he, n', hn, p', hp, h⟩ := h
  cases h
  exact ⟨n', e', rfl, rfl, storeText_fits hn (h0 n (by simp)), storeText_fits he (h0 e (by simp)),
    storeText_fits hp (h0 p (by simp))⟩

theorem expenseFits_of {exp : Expense} {r : ExpenseRow} (h : expenseRow ms exp = some r)
    (h0 : (0 : UInt8) ∉ exp.description) : ExpenseFits ms r ∧ r.category_id ≠ none := by
  simp only [expenseRow, Option.bind_eq_bind, Option.bind_eq_some_iff] at h
  obtain ⟨a, ha, d, hd, date, hdate, t, ht, h⟩ := h
  cases h
  exact ⟨⟨storeDecimal_lt ha, ⟨d, rfl, storeText_fits hd h0⟩, storeDate_shown ms hdate, t, rfl,
    storeType_label ms ht⟩, by simp⟩

theorem budgetFits_of {b : Budget} {r : BudgetRow} (h : budgetRow ms b = some r)
    (h0 : (0 : UInt8) ∉ b.category_name) : BudgetFits ms r := by
  simp only [budgetRow, Option.bind_eq_bind, Option.bind_eq_some_iff] at h
  obtain ⟨c, hc, x, hx, h⟩ := h
  cases h
  exact ⟨_, _, _, rfl, rfl, rfl, storeText_fits hc h0⟩

theorem savingFits_of {stx : SavingTx} {r : SavingRow} (h : savingRow ms stx = some r)
    (h0 : (0 : UInt8) ∉ stx.description) : SavingFits ms r := by
  simp only [savingRow, Option.bind_eq_bind, Option.bind_eq_some_iff] at h
  obtain ⟨x, hx, d, hd, date, hdate, h⟩ := h
  cases h
  exact ⟨_, _, _, _, rfl, rfl, rfl, rfl, storeText_fits hd h0, storeDate_shown ms hdate⟩

theorem goalFits_of {g : Goal} {r : GoalRow} (h : goalRow ms g = some r)
    (h0 : ∀ s ∈ [g.title, g.priority], (0 : UInt8) ∉ s) : GoalFits ms r := by
  simp only [goalRow, Option.bind_eq_bind, Option.bind_eq_some_iff] at h
  obtain ⟨t, ht, x, hx, y, hy, date, hdate, p, hp, h⟩ := h
  cases h
  exact ⟨_, _, _, _, _, _, rfl, rfl, rfl, rfl, rfl, rfl, storeText_fits ht (h0 _ (by simp)),
    storeDate_shown ms hdate, storeText_fits hp (h0 _ (by simp))⟩

/-- Room under both unique keys. -/
theorem newUser_apart {r : UserRow} (h : newUser ms db r = true) :
    ∀ o ∈ db.users.rows, o.2.email ≠ r.email ∧ OtherName ms o.2 r := by
  intro o ho
  have hkeys := List.all_eq_true.mp h o ho
  rw [Bool.and_eq_true, bne_iff_ne] at hkeys
  refine ⟨hkeys.1, fun a b ha hb => ?_⟩
  have hname := hkeys.2
  rw [ha, hb] at hname
  simpa using hname

theorem valid_insertUser {e n p : Bytes} (hv : Valid ms db)
    (h : exec ms db (.insertUser e n p) = some (db', rs)) : Valid ms db' := by
  have hnul := (exec_noNul h).1
  obtain ⟨r, users, hr, hnew, hins, rfl, _⟩ := exec_insertUser h
  have hapart := newUser_apart hnew
  have hrows := (Table.insert_spec hins).1
  refine ⟨hv.seeds, Table.forall_insert hins hv.users (userFits_of hr hnul), ?_, ?_, hv.Expenses, ?_,
    hv.Budgets, hv.Savings, hv.Goals⟩
  · rw [hrows, List.map_append, List.map_singleton]
    refine List.nodup_append.mpr ⟨hv.emails, List.nodup_singleton _, ?_⟩
    intro x hx y hy hxy
    obtain ⟨o, ho, rfl⟩ := List.mem_map.mp hx
    rw [List.mem_singleton] at hy
    exact (hapart o ho).1 (hxy.trans hy)
  · rw [hrows, List.pairwise_append]
    refine ⟨hv.names, List.pairwise_singleton _ _, ?_⟩
    intro o ho o' ho'
    rw [List.mem_singleton.mp ho']
    exact (hapart o ho).2
  · intro x hx
    obtain ⟨⟨u, hu, hid⟩, hc⟩ := hv.foreign x hx
    exact ⟨⟨u, by rw [hrows]; exact List.mem_append_left _ hu, hid⟩, hc⟩

theorem valid_insertExpense {exp : Expense} (hv : Valid ms db)
    (h : exec ms db (.insertExpense exp) = some (db', rs)) : Valid ms db' := by
  have hnul := (exec_noNul h).1
  obtain ⟨r, t, hr, hkeys, hins, rfl, _⟩ := exec_insertExpense h
  obtain ⟨hfits, hcat⟩ := expenseFits_of hr (hnul _ (by simp [Stmt.strings]))
  refine ⟨hv.seeds, hv.users, hv.emails, hv.names, Table.forall_insert hins hv.Expenses hfits,
    Table.forall_insert hins hv.foreign ?_, hv.Budgets, hv.Savings, hv.Goals⟩
  obtain ⟨c, hc⟩ := Option.ne_none_iff_exists'.mp hcat
  unfold foreignKeys at hkeys
  rw [hc, Bool.and_eq_true, List.any_eq_true] at hkeys
  obtain ⟨⟨u, hu, hid⟩, hmem⟩ := hkeys
  exact ⟨⟨u, hu, by simpa using hid⟩, c, by simpa using hmem, hc⟩

/-- **Every statement keeps the constraints.** -/
theorem keeps_valid (ms : MySql) : Keeps (exec ms) (Valid ms) := by
  intro db q db' rs h hv
  have hnul := (exec_noNul h).1
  cases q with
  | insertUser e n p => exact valid_insertUser hv h
  | insertExpense exp => exact valid_insertExpense hv h
  | deleteExpense id =>
    rw [exec_deleteExpense] at h
    cases h
    exact ⟨hv.seeds, hv.users, hv.emails, hv.names, fun r hr => hv.Expenses r (Table.mem_delete.mp hr).1,
      fun r hr => hv.foreign r (Table.mem_delete.mp hr).1, hv.Budgets, hv.Savings, hv.Goals⟩
  | insertBudget b =>
    obtain ⟨r, t, hr, hins, rfl, _⟩ := exec_insertBudget h
    have hfits := budgetFits_of hr (hnul _ (by simp [Stmt.strings]))
    exact ⟨hv.seeds, hv.users, hv.emails, hv.names, hv.Expenses, hv.foreign,
      Table.forall_insert hins hv.Budgets hfits, hv.Savings, hv.Goals⟩
  | insertSaving stx =>
    obtain ⟨r, t, hr, hins, rfl, _⟩ := exec_insertSaving h
    have hfits := savingFits_of hr (hnul _ (by simp [Stmt.strings]))
    exact ⟨hv.seeds, hv.users, hv.emails, hv.names, hv.Expenses, hv.foreign, hv.Budgets,
      Table.forall_insert hins hv.Savings hfits, hv.Goals⟩
  | insertGoal g =>
    obtain ⟨r, t, hr, hins, rfl, _⟩ := exec_insertGoal h
    have hfits := goalFits_of hr fun s hs => hnul s (by simp [Stmt.strings] at hs ⊢; tauto)
    exact ⟨hv.seeds, hv.users, hv.emails, hv.names, hv.Expenses, hv.foreign, hv.Budgets, hv.Savings,
      Table.forall_insert hins hv.Goals hfits⟩
  | _ =>
    rw [(exec_selects rfl h).1]
    exact hv

/-! ## Over time -/

/-- `db'` is `db` some time later, the expenses `gone` deleted since. -/
structure Later (gone : List Int32) (db db' : Db) : Prop where
  users : Table.Later [] db.users db'.users
  Expenses : Table.Later gone db.Expenses db'.Expenses
  Budgets : Table.Later [] db.Budgets db'.Budgets
  Savings : Table.Later [] db.Savings db'.Savings
  Goals : Table.Later [] db.Goals db'.Goals

theorem Later.refl (db : Db) : Later [] db db := ⟨.refl _, .refl _, .refl _, .refl _, .refl _⟩

theorem Later.trans {gone gone' : List Int32} {db'' : Db} (h : Later gone db db')
    (h' : Later gone' db' db'') : Later (gone ++ gone') db db'' :=
  ⟨h.users.trans h'.users, h.Expenses.trans h'.Expenses, h.Budgets.trans h'.Budgets,
    h.Savings.trans h'.Savings, h.Goals.trans h'.Goals⟩

/-- The expenses a statement deletes. -/
def goneBy : Stmt → List Int32
  | .deleteExpense id => [id]
  | _ => []

/-- **A statement over time.** -/
theorem later_exec {q : Stmt} (h : exec ms db q = some (db', rs)) : Later (goneBy q) db db' := by
  have same := Later.refl db
  cases q with
  | insertUser e n p =>
    obtain ⟨_, _, _, _, hins, rfl, _⟩ := exec_insertUser h
    exact ⟨Table.later_insert hins, same.Expenses, same.Budgets, same.Savings, same.Goals⟩
  | insertExpense exp =>
    obtain ⟨_, _, _, _, hins, rfl, _⟩ := exec_insertExpense h
    exact ⟨same.users, Table.later_insert hins, same.Budgets, same.Savings, same.Goals⟩
  | deleteExpense id =>
    rw [exec_deleteExpense] at h
    cases h
    exact ⟨same.users, Table.later_delete _ _, same.Budgets, same.Savings, same.Goals⟩
  | insertBudget b =>
    obtain ⟨_, _, _, hins, rfl, _⟩ := exec_insertBudget h
    exact ⟨same.users, same.Expenses, Table.later_insert hins, same.Savings, same.Goals⟩
  | insertSaving stx =>
    obtain ⟨_, _, _, hins, rfl, _⟩ := exec_insertSaving h
    exact ⟨same.users, same.Expenses, same.Budgets, Table.later_insert hins, same.Goals⟩
  | insertGoal g =>
    obtain ⟨_, _, _, hins, rfl, _⟩ := exec_insertGoal h
    exact ⟨same.users, same.Expenses, same.Budgets, same.Savings, Table.later_insert hins⟩
  | _ =>
    rw [(exec_selects rfl h).1]
    exact same

end Exec

end ExpenseTracker.L2.Integrity
