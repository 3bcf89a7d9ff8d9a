import ExpenseTracker.L2Store.Server
import ExpenseTracker.L3Server.Json

/-!
# DBManager

The operations of `db_manager.cpp` as programs over the client library: each
sends one statement, and a reader then fetches the result set and reads it
row by row. A failed call ends a reader with what it has: nothing.

* `run_execute`, `run_fetch`: all that the two kinds of operation do on an idle
  connection. Both leave it idle.
* `readExpense_cells` and its siblings: what the readers make of a stored row.
-/
namespace ExpenseTracker.L3.DbManager

open ExpenseTracker.Core ExpenseTracker.L1.Amount
open ExpenseTracker.L2.Schema ExpenseTracker.L2.Statement ExpenseTracker.L2.Server
open ExpenseTracker.L3.Json

abbrev Op := Prog Stmt ResultSet Exn

/-! ## Reading a row -/

/-- `row[i]` -/
def col (row : Row) (i : ℕ) : Cell := row.getD i .null

/-- `std::stoi(row[i])` on an `INT` column; a null pointer is no string. -/
def stoi : Cell → Except Exn Int32
  | .int i => .ok i
  | .null => .error .logic_error
  | _ => .error .invalid_argument

/-- `std::stod(row[i])` on a numeric column. -/
def stod : Cell → Except Exn Double
  | .decimal k => .ok (ofCents k)
  | .double x => .ok x
  | .null => .error .logic_error
  | _ => .error .invalid_argument

/-- `row[i] ? std::stoi(row[i]) : dflt` -/
def stoiOr (dflt : Int32) : Cell → Except Exn Int32
  | .null => .ok dflt
  | c => stoi c

/-- `row[i] ? row[i] : dflt` on a text column: a C string ends at a NUL. -/
def textOr (dflt : Bytes) : Cell → Bytes
  | .text s => cStr s
  | _ => dflt

/-- mirrors src/src/db/db_manager.cpp:104-111 -/
def readExpense (row : Row) : Except Exn Expense := do
  let id ← stoi (col row 0)
  let user_id ← stoi (col row 1)
  let category_id ← stoiOr 0 (col row 2)
  let amount ← stod (col row 3)
  let description := textOr [] (col row 4)
  let expense_date := textOr [] (col row 5)
  let type := textOr (ascii "expense") (col row 6)
  return { id, user_id, category_id, amount, description, expense_date, type }

/-- mirrors src/src/db/db_manager.cpp:145-149 -/
def readBudget (row : Row) : Except Exn Budget := do
  let id ← stoi (col row 0)
  let user_id ← stoi (col row 1)
  let category_name := textOr [] (col row 2)
  let target_amount ← stod (col row 3)
  return { id, user_id, category_name, target_amount }

/-- mirrors src/src/db/db_manager.cpp:175-180 -/
def readSavingTx (row : Row) : Except Exn SavingTx := do
  let id ← stoi (col row 0)
  let user_id ← stoi (col row 1)
  let amount ← stod (col row 2)
  let description := textOr [] (col row 3)
  let transaction_date := textOr [] (col row 4)
  return { id, user_id, amount, description, transaction_date }

/-- mirrors src/src/db/db_manager.cpp:208-215 -/
def readGoal (row : Row) : Except Exn Goal := do
  let id ← stoi (col row 0)
  let user_id ← stoi (col row 1)
  let title := textOr [] (col row 2)
  let target_amount ← stod (col row 3)
  let saved_amount ← stod (col row 4)
  let deadline := textOr [] (col row 5)
  let priority := textOr (ascii "Medium") (col row 6)
  return { id, user_id, title, target_amount, saved_amount, deadline, priority }

/-! ## Operations -/

/-- `if (mysql_query(conn, query.c_str())) return false; return true;` -/
def execute (q : Stmt) : Op Bool := do
  let failed ← Prog.callQuery q
  return !failed

/-- The body the four readers share. -/
def fetch {α : Type} (q : Stmt) (read : Row → Except Exn α) : Op (List α) := do
  let failed ← Prog.callQuery q
  if failed then return []
  else
    let result ← Prog.callStore
    match result with
    | none => return []
    | some rows => Prog.lift (rows.mapM read)

/-- mirrors src/src/db/db_manager.cpp:46-54 -/
def registerUser (email display_name password_hash : Bytes) : Op Bool :=
  execute (.insertUser email display_name password_hash)

/-- The hash, with what the two out parameters hold afterwards.
mirrors src/src/db/db_manager.cpp:56-72 -/
def getPasswordHash (email : Bytes) (user_id : Int32) (display_name : Bytes) :
    Op (Bytes × Int32 × Bytes) := do
  let failed ← Prog.callQuery (.selectUser email)
  if failed then return ([], user_id, display_name)
  else
    let result ← Prog.callStore
    match result with
    | some (row :: _) =>
      let user_id ← Prog.lift (stoi (col row 0))
      return (textOr [] (col row 1), user_id, textOr [] (col row 2))
    | _ => return ([], user_id, display_name)

/-- mirrors src/src/db/db_manager.cpp:74-88 -/
def addExpense (exp : Expense) : Op Bool := execute (.insertExpense exp)

/-- mirrors src/src/db/db_manager.cpp:90-116 -/
def getExpenses (user_id : Int32) : Op (List Expense) := fetch (.selectExpenses user_id) readExpense

/-- mirrors src/src/db/db_manager.cpp:118-125 -/
def deleteExpense (id : Int32) : Op Bool := execute (.deleteExpense id)

/-- mirrors src/src/db/db_manager.cpp:128-135 -/
def addBudget (b : Budget) : Op Bool := execute (.insertBudget b)

/-- mirrors src/src/db/db_manager.cpp:137-154 -/
def getBudgets (user_id : Int32) : Op (List Budget) := fetch (.selectBudgets user_id) readBudget

/-- mirrors src/src/db/db_manager.cpp:157-165 -/
def addSavingTx (stx : SavingTx) : Op Bool := execute (.insertSaving stx)

/-- mirrors src/src/db/db_manager.cpp:167-185 -/
def getSavingTx (user_id : Int32) : Op (List SavingTx) := fetch (.selectSavings user_id) readSavingTx

/-- mirrors src/src/db/db_manager.cpp:188-198 -/
def addGoal (g : Goal) : Op Bool := execute (.insertGoal g)

/-- mirrors src/src/db/db_manager.cpp:200-220 -/
def getGoals (user_id : Int32) : Op (List Goal) := fetch (.selectGoals user_id) readGoal

/-! ## Reading all rows -/

section Rows

variable {α β : Type} {read : α → Except Exn β}

/-- Every record read comes from a row. -/
theorem mem_of_mapM {l : List α} {l' : List β} (h : l.mapM read = .ok l') {b : β} (hb : b ∈ l') :
    ∃ a ∈ l, read a = .ok b := by
  induction l generalizing l' with
  | nil =>
    cases h
    cases hb
  | cons a l ih =>
    rw [List.mapM_cons] at h
    cases ha : read a with
    | error e => rw [ha] at h; cases h
    | ok b' =>
      cases hl : l.mapM read with
      | error e => rw [ha, hl] at h; cases h
      | ok bs =>
        rw [ha, hl] at h
        cases h
        rcases List.mem_cons.mp hb with rfl | hb
        · exact ⟨a, List.mem_cons_self, ha⟩
        · obtain ⟨a', ha', hr⟩ := ih hl hb
          exact ⟨a', List.mem_cons_of_mem _ ha', hr⟩

/-- Rows that all read give one record each. -/
theorem mapM_ok {g : α → β} {l : List α} (h : ∀ a ∈ l, read a = .ok (g a)) :
    l.mapM read = .ok (l.map g) := by
  induction l with
  | nil => rfl
  | cons a l ih =>
    rw [List.mapM_cons, h a List.mem_cons_self, ih fun x hx => h x (List.mem_cons_of_mem _ hx)]
    rfl

/-- One row that does not read is an exception. -/
theorem mapM_error {l : List α} {a : α} (ha : a ∈ l) (h : ∃ e, read a = .error e) :
    ∃ e, l.mapM read = .error e := by
  induction l with
  | nil => cases ha
  | cons b l ih =>
    rw [List.mapM_cons]
    cases hb : read b with
    | error e => exact ⟨e, rfl⟩
    | ok r =>
      rcases List.mem_cons.mp ha with rfl | ha
      · obtain ⟨e, he⟩ := h
        rw [he] at hb
        cases hb
      · obtain ⟨e, he⟩ := ih ha
        exact ⟨e, by rw [he]; rfl⟩

end Rows

/-! ## Runs on an idle connection -/

section Runs

variable {ex : Exec Db Stmt ResultSet} {f : Fault} {db : Db} {q : Stmt}

/-- A statement that stores: carried out whole, or refused without a trace. -/
theorem run_execute : (execute q).run ex f (.idle db) =
    if f.query then (.ok false, .idle db)
    else
      match ex db q with
      | none => (.ok false, .idle db)
      | some (db', rs) => (.ok true, ⟨db', rs⟩) := by
  cases hf : f.query with
  | true => simp [execute, Prog.callQuery, Prog.bind, Prog.run, Conn.query, Conn.idle, hf]
  | false =>
    cases he : ex db q with
    | none => simp [execute, Prog.callQuery, Prog.bind, Prog.run, Conn.query, Conn.idle, hf, he]
    | some r => simp [execute, Prog.callQuery, Prog.bind, Prog.run, Conn.query, Conn.idle, hf, he]

/-- A statement that reads: what the reader gets, and that nothing is left to
fetch. -/
theorem run_fetch {α : Type} {read : Row → Except Exn α} {rows : ResultSet}
    (he : ex db q = some (db, some rows)) : (fetch q read).run ex f (.idle db) =
      (if f.query || f.store then .ok [] else rows.mapM read, .idle db) := by
  cases hf : f.query with
  | true => simp [fetch, Prog.callQuery, Prog.bind, Prog.run, Conn.query, Conn.idle, hf]
  | false =>
    cases hs : f.store with
    | true =>
      simp [fetch, Prog.callQuery, Prog.callStore, Prog.bind, Prog.run, Conn.query, Conn.store,
        Conn.idle, hf, hs, he]
    | false =>
      simp [fetch, Prog.callQuery, Prog.callStore, Prog.bind, Prog.run, Conn.query, Conn.store,
        Conn.idle, hf, hs, he]

end Runs

end ExpenseTracker.L3.DbManager
