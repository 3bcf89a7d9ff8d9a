import ExpenseTracker.L2Store.Schema

/-!
# Statements

The records of `db_manager.h`, and the SQL statements `DBManager` builds from
them. A `Stmt` is the statement meant, with its arguments as parameters;
`Stmt.text` is the text the program concatenates for it, and `Stmt.sent` the
part of it that `c_str()` hands to the client library.

* `Stmt.strings`: the string arguments, each between quotes in the text.
-/
namespace ExpenseTracker.L2.Statement

open ExpenseTracker.Core ExpenseTracker.L1.Amount

/-- mirrors src/src/db/db_manager.h:6-14 -/
structure Expense where
  id : Int32
  user_id : Int32
  category_id : Int32
  amount : Double
  description : Bytes
  expense_date : Bytes
  type : Bytes
  deriving DecidableEq

/-- mirrors src/src/db/db_manager.h:16-21 -/
structure Budget where
  id : Int32
  user_id : Int32
  category_name : Bytes
  target_amount : Double
  deriving DecidableEq

/-- mirrors src/src/db/db_manager.h:23-29 -/
structure SavingTx where
  id : Int32
  user_id : Int32
  amount : Double
  description : Bytes
  transaction_date : Bytes
  deriving DecidableEq

/-- mirrors src/src/db/db_manager.h:31-39 -/
structure Goal where
  id : Int32
  user_id : Int32
  title : Bytes
  target_amount : Double
  saved_amount : Double
  deadline : Bytes
  priority : Bytes
  deriving DecidableEq

/-- The statements of `db_manager.cpp`. -/
inductive Stmt where
  | insertUser (email display_name password_hash : Bytes)
  | selectUser (email : Bytes)
  | insertExpense (exp : Expense)
  | selectExpenses (user_id : Int32)
  | deleteExpense (id : Int32)
  | insertBudget (b : Budget)
  | selectBudgets (user_id : Int32)
  | insertSaving (stx : SavingTx)
  | selectSavings (user_id : Int32)
  | insertGoal (g : Goal)
  | selectGoals (user_id : Int32)
  deriving DecidableEq

namespace Stmt

/-- The string arguments. -/
def strings : Stmt → List Bytes
  | insertUser email display_name password_hash => [email, display_name, password_hash]
  | selectUser email => [email]
  | insertExpense exp => [exp.description, exp.expense_date, exp.type]
  | insertBudget b => [b.category_name]
  | insertSaving stx => [stx.description, stx.transaction_date]
  | insertGoal g => [g.title, g.deadline, g.priority]
  | selectExpenses _ | deleteExpense _ | selectBudgets _ | selectSavings _ | selectGoals _ => []

/-- The query text, as concatenated.
mirrors src/src/db/db_manager.cpp:48,57,75-81,92,119,129-132,139,158-162,169,189-195,202 -/
def text : Stmt → Bytes
  | insertUser email display_name password_hash =>
    ascii "INSERT INTO users (email, display_name, password_hash) VALUES ('" ++ email ++
      ascii "', '" ++ display_name ++ ascii "', '" ++ password_hash ++ ascii "')"
  | selectUser email =>
    ascii "SELECT id, password_hash, display_name FROM users WHERE email = '" ++ email ++ ascii "'"
  | insertExpense exp =>
    ascii ("INSERT INTO Expenses (user_id, category_id, amount, description, " ++
        "expense_date, type) VALUES (") ++
      intText exp.user_id.toInt ++ ascii ", " ++
      intText exp.category_id.toInt ++ ascii ", " ++
      doubleText exp.amount ++ ascii ", '" ++
      exp.description ++ ascii "', '" ++
      exp.expense_date ++ ascii "', '" ++
      exp.type ++ ascii "')"
  | selectExpenses user_id =>
    ascii ("SELECT id, user_id, category_id, amount, description, expense_date, type " ++
        "FROM Expenses WHERE user_id = ") ++ intText user_id.toInt
  | deleteExpense id => ascii "DELETE FROM Expenses WHERE id = " ++ intText id.toInt
  | insertBudget b =>
    ascii "INSERT INTO Budgets (user_id, category_name, target_amount) VALUES (" ++
      intText b.user_id.toInt ++ ascii ", '" ++
      b.category_name ++ ascii "', " ++
      doubleText b.target_amount ++ ascii ")"
  | selectBudgets user_id =>
    ascii "SELECT id, user_id, category_name, target_amount FROM Budgets WHERE user_id = " ++
      intText user_id.toInt
  | insertSaving stx =>
    ascii "INSERT INTO Savings (user_id, amount, description, transaction_date) VALUES (" ++
      intText stx.user_id.toInt ++ ascii ", " ++
      doubleText stx.amount ++ ascii ", '" ++
      stx.description ++ ascii "', '" ++
      stx.transaction_date ++ ascii "')"
  | selectSavings user_id =>
    ascii ("SELECT id, user_id, amount, description, transaction_date " ++
        "FROM Savings WHERE user_id = ") ++ intText user_id.toInt
  | insertGoal g =>
    ascii ("INSERT INTO Goals (user_id, title, target_amount, saved_amount, deadline, " ++
        "priority) VALUES (") ++
      intText g.user_id.toInt ++ ascii ", '" ++
      g.title ++ ascii "', " ++
      doubleText g.target_amount ++ ascii ", " ++
      doubleText g.saved_amount ++ ascii ", '" ++
      g.deadline ++ ascii "', '" ++
      g.priority ++ ascii "')"
  | selectGoals user_id =>
    ascii ("SELECT id, user_id, title, target_amount, saved_amount, deadline, priority " ++
        "FROM Goals WHERE user_id = ") ++ intText user_id.toInt

/-- What `mysql_query(conn, query.c_str())` is given. -/
def sent (q : Stmt) : Bytes := cStr q.text

end Stmt

end ExpenseTracker.L2.Statement
