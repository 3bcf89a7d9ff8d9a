import Mathlib.Data.List.Basic

/-!
# The Categories table

What `schema.sql` and `executeMigrations` leave in `Categories`, which no
route ever writes. The migration's seed names a column the table does not
have, so it is refused as a whole; `IGNORE` concerns rows, not columns.

* `migrated_eq`: the eight rows of `schema.sql`, in its order.
-/
namespace ExpenseTracker.L2.Categories

/-- The table: its columns, its rows by key, and the AUTO_INCREMENT counter. -/
structure CategoryTable where
  columns : List String
  rows : List (Int32 × String)
  counter : Int32
  deriving DecidableEq

/-- mirrors src/sql/schema.sql:11-14 -/
def create : CategoryTable := ⟨["id", "name"], [], 1⟩

/-- One row of `INSERT INTO Categories (name) ... ON DUPLICATE KEY UPDATE name=name`:
a name that is there stays as it is. -/
def insertName (t : CategoryTable) (name : String) : CategoryTable :=
  if t.rows.any (·.2 == name) then t
  else { t with rows := t.rows ++ [(t.counter, name)], counter := t.counter + 1 }

/-- One row of `INSERT IGNORE` with its key: a key or a name that is there is skipped. -/
def insertRow (t : CategoryTable) (row : Int32 × String) : CategoryTable :=
  if t.rows.any (fun r => r.1 == row.1 || r.2 == row.2) then t
  else { t with rows := t.rows ++ [row], counter := max t.counter (row.1 + 1) }

/-- `INSERT IGNORE`; an unknown column is an error. -/
def insertIgnore (t : CategoryTable) (columns : List String) (rows : List (Int32 × String)) :
    CategoryTable :=
  if columns.all (t.columns.contains ·) then rows.foldl insertRow t else t

/-- mirrors src/sql/schema.sql:28-38 -/
def schemaNames : List String :=
  ["Food", "Transport", "Housing", "Utilities", "Entertainment", "Health", "Shopping", "Other"]

/-- The seed without its third column.
mirrors src/src/db/db_manager.cpp:36 -/
def seedRows : List (Int32 × String) :=
  [(1, "Housing"), (2, "Transportation"), (3, "Food"), (4, "Utilities"), (5, "Insurance"),
    (6, "Medical"), (7, "Investing"), (8, "Personal"), (9, "Entertainment"), (10, "Others")]

/-- `Categories` after `schema.sql` and `executeMigrations`. -/
def migrated : CategoryTable :=
  insertIgnore (schemaNames.foldl insertName create) ["id", "name", "icon"] seedRows

theorem migrated_eq : migrated.rows = [(1, "Food"), (2, "Transport"), (3, "Housing"),
    (4, "Utilities"), (5, "Entertainment"), (6, "Health"), (7, "Shopping"), (8, "Other")] := by
  decide

end ExpenseTracker.L2.Categories
