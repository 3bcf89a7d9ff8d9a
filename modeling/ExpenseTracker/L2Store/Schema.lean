import ExpenseTracker.Core.Calendar
import ExpenseTracker.Core.Table
import ExpenseTracker.L2Store.Categories
import ExpenseTracker.L1Encoding.Amount

/-!
# The database

The tables after `schema.sql` and `executeMigrations`, and what MySQL in
strict mode stores for a value given to a column. Columns no query of the
program reads (`created_at`) are left out. A nullable column is an `Option`.

What depends on the server's character set and on its reading of texts that
are no plain date or label is a parameter (`MySql`), with what holds of every such
server as its laws.

* `storeDate_of_isDate`, `storeType_of_label`: a valid `YYYY-MM-DD` date and the
  two labels of the `ENUM` are stored as they are.
* `storeDate_shown`, `storeType_label`: whatever is stored is a date, or a label.
* `storeDecimal_ofCents`, `storeDouble_ofCents`: an amount of `k` cents is stored
  as `k` cents, or as the double nearest to them.
-/
namespace ExpenseTracker.L2.Schema

open ExpenseTracker.Core ExpenseTracker.L1.Amount

/-! ## Tables -/

/-- mirrors src/sql/schema.sql:4-9 and src/src/db/db_manager.cpp:25,28 -/
structure UserRow where
  display_name : Option Bytes
  email : Option Bytes
  password_hash : Bytes

/-- `amount` is in cents.
mirrors src/sql/schema.sql:16-26 and src/src/db/db_manager.cpp:31 -/
structure ExpenseRow where
  user_id : Int32
  category_id : Option Int32
  amount : ℤ
  description : Option Bytes
  expense_date : Bytes
  type : Option Bytes

/-- mirrors src/src/db/db_manager.cpp:39 -/
structure BudgetRow where
  user_id : Option Int32
  category_name : Option Bytes
  target_amount : Option Double

/-- mirrors src/src/db/db_manager.cpp:40 -/
structure SavingRow where
  user_id : Option Int32
  amount : Option Double
  description : Option Bytes
  transaction_date : Option Bytes

/-- mirrors src/src/db/db_manager.cpp:43 -/
structure GoalRow where
  user_id : Option Int32
  title : Option Bytes
  target_amount : Option Double
  saved_amount : Option Double
  deadline : Option Bytes
  priority : Option Bytes

/-- The database. Of `Categories` only the keys matter to the queries. -/
structure Db where
  users : Table UserRow
  Categories : List Int32
  Expenses : Table ExpenseRow
  Budgets : Table BudgetRow
  Savings : Table SavingRow
  Goals : Table GoalRow

/-- The database after `schema.sql` and the migrations, before any request. -/
def Db.migrated : Db where
  users := .empty
  Categories := Categories.migrated.rows.map Prod.fst
  Expenses := .empty
  Budgets := .empty
  Savings := .empty
  Goals := .empty

/-! ## Column conversions -/

/-- What the server's configuration decides. Emails are compared byte by byte. -/
structure MySql where
  /-- A text fits a `VARCHAR(n)` in the connection's character set. -/
  fits : ℕ → Bytes → Bool
  /-- Two names the unique key of `display_name` takes for one. -/
  sameName : Bytes → Bytes → Bool
  /-- What a `DATE` stores for a text that is no plain date, if it takes it. -/
  otherDate : Bytes → Option Bytes
  /-- What the `ENUM` stores for a text that is none of its labels, such as the number of one. -/
  otherType : Bytes → Option Bytes
  /-- What a `DOUBLE` stores for a literal of more than 65 digits. -/
  wideDouble : ℤ → Option Double
  /-- A character takes four bytes at most. -/
  fits_le : ∀ n s, fits n s = true → s.length ≤ 4 * n
  /-- A date is shown in digits and dashes. -/
  date_shown : ∀ s d, otherDate s = some d → ∀ b ∈ d, isDigit b = true ∨ b = 45
  /-- An `ENUM` holds one of its labels. -/
  type_label : ∀ s t, otherType s = some t → t = ascii "income" ∨ t = ascii "expense"

theorem fits_bytes (n : ℕ) (s : Bytes) (h : decide (s.length ≤ n) = true) : s.length ≤ 4 * n := by
  have hle := of_decide_eq_true h
  omega

theorem no_date (_ d : Bytes) (h : (none : Option Bytes) = some d) :
    ∀ b ∈ d, isDigit b = true ∨ b = 45 := by cases h

theorem no_label (_ t : Bytes) (h : (none : Option Bytes) = some t) :
    t = ascii "income" ∨ t = ascii "expense" := by cases h

/-- A server with one-byte characters that takes no text but plain dates and
labels. -/
def MySql.plain : MySql where
  fits n s := s.length ≤ n
  sameName a b := a == b
  otherDate _ := none
  otherType _ := none
  wideDouble _ := none
  fits_le := fits_bytes
  date_shown := no_date
  type_label := no_label

/-- The days of a month, from 1. -/
def daysIn (y m : ℕ) : ℤ :=
  Calendar.daysBefore (Calendar.isLeap y) m - Calendar.daysBefore (Calendar.isLeap y) (m - 1)

/-- A valid date written `YYYY-MM-DD`. -/
def isDate (s : Bytes) : Bool :=
  match s with
  | [y1, y2, y3, y4, 45, m1, m2, 45, d1, d2] =>
    [y1, y2, y3, y4, m1, m2, d1, d2].all isDigit &&
      (let y := readNat [y1, y2, y3, y4]
       let m := readNat [m1, m2]
       let d := readNat [d1, d2]
       decide (1 ≤ y ∧ 1 ≤ m ∧ m ≤ 12 ∧ 1 ≤ d ∧ d ≤ daysIn y m))
  | _ => false

variable (ms : MySql)

/-- A `VARCHAR(n)`: the text as given, or an error. -/
def storeText (n : ℕ) (s : Bytes) : Option Bytes := if ms.fits n s then some s else none

/-- A `DATE`. -/
def storeDate (s : Bytes) : Option Bytes := if isDate s then some s else ms.otherDate s

/-- An `ENUM('income', 'expense')`. -/
def storeType (s : Bytes) : Option Bytes :=
  if s = ascii "income" ∨ s = ascii "expense" then some s else ms.otherType s

/-- A `DECIMAL(10, 2)`, in cents, from a literal in millionths. -/
def storeDecimal (m : ℤ) : Option ℤ :=
  if |roundCents m| < 10 ^ 10 then some (roundCents m) else none

/-- A `DOUBLE` from a literal in millionths. -/
def storeDouble (m : ℤ) : Option Double :=
  if |m| < 10 ^ 65 then some (ofMicros m) else ms.wideDouble m

theorem storeText_eq_some {n : ℕ} {s t : Bytes} (h : storeText ms n s = some t) : t = s := by
  unfold storeText at h
  split at h <;> simp_all

theorem storeDate_of_isDate {s : Bytes} (h : isDate s = true) : storeDate ms s = some s := if_pos h

/-- A stored date is shown in digits and dashes. -/
theorem storeDate_shown {s d : Bytes} (h : storeDate ms s = some d) :
    ∀ b ∈ d, isDigit b = true ∨ b = 45 := by
  unfold storeDate at h
  split at h
  · rename_i hdate
    cases h
    unfold isDate at hdate
    split at hdate
    · simp only [Bool.and_eq_true, List.all_cons, List.all_nil] at hdate
      simp [hdate]
    · cases hdate
  · exact ms.date_shown s d h

/-- A stored type is a label. -/
theorem storeType_label {s t : Bytes} (h : storeType ms s = some t) :
    t = ascii "income" ∨ t = ascii "expense" := by
  unfold storeType at h
  split at h
  · cases h
    assumption
  · exact ms.type_label s t h

theorem storeType_of_label {s : Bytes} (h : s = ascii "income" ∨ s = ascii "expense") :
    storeType ms s = some s := if_pos h

theorem storeDecimal_lt {m cents : ℤ} (h : storeDecimal m = some cents) : |cents| < 10 ^ 10 := by
  unfold storeDecimal at h
  split at h
  · cases h
    assumption
  · cases h

theorem storeDecimal_ofCents {k : ℤ} (hk : |k| < 10 ^ 10) :
    storeDecimal (micros (ofCents k)) = some k := by
  rw [storeDecimal, roundCents_micros hk, if_pos hk]

theorem storeDouble_ofCents {k : ℤ} (hk : |k| < 10 ^ 10) :
    storeDouble ms (micros (ofCents k)) = some (ofCents k) := by
  have hm : |micros (ofCents k)| < 10 ^ 65 := by
    rw [micros_ofCents hk, abs_mul]
    calc |k| * |(10 : ℤ) ^ 4| ≤ 10 ^ 10 * 10 ^ 4 := by
          rw [abs_of_pos (by norm_num : (0 : ℤ) < 10 ^ 4)]; omega
      _ < 10 ^ 65 := by norm_num
  rw [storeDouble, if_pos hm, ofMicros_micros hk]

end ExpenseTracker.L2.Schema
