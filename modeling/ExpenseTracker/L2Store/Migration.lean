import ExpenseTracker.Core.Ddl
import ExpenseTracker.L2Store.Schema

/-!
# The boot migration

`schema.sql` and the statements of `executeMigrations` as statements over
columns, keys and rows. Every boot runs `executeMigrations` and drops its
errors; a boot that is killed stops after any of the statements.

A database that such boots and insertions can leave is described by what is
still to be done (`Stage`): each statement sets one part of it, or finds it
set and fails.

* `rep_event`, `rep_history`: every database of a history is that of a stage.
* `migration_converges`: one more complete run reaches the one final schema, loses no
  row, and a further run changes nothing.
-/
namespace ExpenseTracker.L2.Migration

open ExpenseTracker.Core ExpenseTracker.Core.Ddl

/-! ## Types and values -/

/-- The column types; `serial` is `INT AUTO_INCREMENT`, and `timestamp` is
`TIMESTAMP DEFAULT CURRENT_TIMESTAMP`. -/
inductive ColumnType where
  | serial
  | int
  | varchar (n : ℕ)
  | decimal (digits scale : ℕ)
  | double
  | date
  | timestamp
  | enum (labels : List Bytes)
  deriving DecidableEq

inductive Value where
  | int (i : Int32)
  | text (s : Bytes)
  | decimal (n : ℤ)
  | double (x : Double)
  | date (s : Bytes)
  | timestamp (t : ℕ)
  deriving DecidableEq

/-- What the character set decides: how many characters a text has, and which
texts a unique key takes for one. -/
structure Charset where
  chars : Bytes → ℕ
  same : Bytes → Bytes → Bool

/-- One-byte characters, compared as they are. -/
def Charset.bytes : Charset := ⟨List.length, fun a b => a == b⟩

def ColumnType.admits (S : Charset) : ColumnType → Value → Bool
  | .serial, .int _ => true
  | .int, .int _ => true
  | .varchar n, .text s => decide (S.chars s ≤ n)
  | .decimal digits _, .decimal n => decide (|n| < 10 ^ digits)
  | .double, .double _ => true
  | .date, .date _ => true
  | .timestamp, .timestamp _ => true
  | .enum labels, .text s => labels.contains s
  | _, _ => false

def Value.same (S : Charset) : Value → Value → Bool
  | .text a, .text b => S.same a b
  | x, y => decide (x = y)

def domain (S : Charset) : Domain ColumnType Value := ⟨ColumnType.admits S, Value.same S⟩

abbrev Row := List (Option Value)

/-! ## schema.sql -/

/-- A column that may be NULL. -/
def nullable (name : String) (type : ColumnType) : Column ColumnType Value := ⟨name, type, false, none⟩

def notNull (name : String) (type : ColumnType) : Column ColumnType Value := ⟨name, type, true, none⟩

def withDefault (name : String) (type : ColumnType) (x : Value) : Column ColumnType Value :=
  ⟨name, type, false, some x⟩

/-- mirrors src/sql/schema.sql:4-9 -/
def users : Shape ColumnType Value where
  columns := [notNull "id" .serial, notNull "username" (.varchar 50),
    notNull "password_hash" (.varchar 255), nullable "created_at" .timestamp]
  unique := ["id", "username"]
  refs := []

/-- mirrors src/sql/schema.sql:11-14 -/
def categories : Shape ColumnType Value where
  columns := [notNull "id" .serial, notNull "name" (.varchar 50)]
  unique := ["id", "name"]
  refs := []

/-- mirrors src/sql/schema.sql:16-26 -/
def expenses : Shape ColumnType Value where
  columns := [notNull "id" .serial, notNull "user_id" .int, nullable "category_id" .int,
    notNull "amount" (.decimal 10 2), nullable "description" (.varchar 255),
    notNull "expense_date" .date, nullable "created_at" .timestamp]
  unique := ["id"]
  refs := [("user_id", "users", "id"), ("category_id", "Categories", "id")]

def createTables : List (Statement ColumnType Value) :=
  [.create "users" users, .create "Categories" categories, .create "Expenses" expenses]

/-- The row of a default category. -/
def categoryRow (r : Int32 × String) : Row := [some (.int r.1), some (.text (ascii r.2))]

/-- The database `schema.sql` creates on an empty server.
mirrors src/sql/schema.sql:1-38 -/
def schemaSql (S : Charset) : Database ColumnType Value :=
  ((Categories.schemaNames.foldl Categories.insertName Categories.create).rows.map categoryRow).foldl
    (fun db row => (insert (domain S) db "Categories" row).getD db)
    (upgrade (domain S) createTables 3 fun _ => none)

/-! ## executeMigrations -/

/-- mirrors src/src/db/db_manager.cpp:25 -/
def displayName : Column ColumnType Value := nullable "display_name" (.varchar 100)

/-- mirrors src/src/db/db_manager.cpp:28 -/
def email : Column ColumnType Value := nullable "email" (.varchar 255)

/-- mirrors src/src/db/db_manager.cpp:31 -/
def type : Column ColumnType Value :=
  withDefault "type" (.enum [ascii "income", ascii "expense"]) (.text (ascii "expense"))

/-- mirrors src/src/db/db_manager.cpp:39 -/
def budgets : Shape ColumnType Value where
  columns := [notNull "id" .serial, nullable "user_id" .int,
    nullable "category_name" (.varchar 255), nullable "target_amount" .double]
  unique := ["id"]
  refs := []

/-- mirrors src/src/db/db_manager.cpp:40 -/
def savings : Shape ColumnType Value where
  columns := [notNull "id" .serial, nullable "user_id" .int, nullable "amount" .double,
    nullable "description" (.varchar 255), nullable "transaction_date" .date]
  unique := ["id"]
  refs := []

/-- mirrors src/src/db/db_manager.cpp:43 -/
def goals : Shape ColumnType Value where
  columns := [notNull "id" .serial, nullable "user_id" .int, nullable "title" (.varchar 255),
    nullable "target_amount" .double, withDefault "saved_amount" .double (.double Double.zero),
    nullable "deadline" .date, withDefault "priority" (.varchar 50) (.text (ascii "Medium"))]
  unique := ["id"]
  refs := []

/-- The seed; its icons are left out, the column they are for decides it.
mirrors src/src/db/db_manager.cpp:36 -/
def seedCategories : Statement ColumnType Value :=
  .insertIgnore "Categories" ["id", "name", "icon"] (Categories.seedRows.map categoryRow)

/-- mirrors src/src/db/db_manager.cpp:23-44 -/
def executeMigrations : List (Statement ColumnType Value) :=
  [.change "users" "username" displayName, .add "users" email true, .add "Expenses" type false,
    seedCategories, .create "Budgets" budgets, .create "Savings" savings, .create "Goals" goals]

/-! ## Histories -/

/-- A boot that gets as far as its first `n` statements, or a row inserted. -/
inductive Event where
  | boot (n : ℕ)
  | insert (table : String) (row : Row)

variable (S : Charset)

/-- A boot, interrupted or not. -/
def boot (n : ℕ) (db : Database ColumnType Value) : Database ColumnType Value :=
  upgrade (domain S) executeMigrations n db

/-- A complete run. -/
def completeRun (db : Database ColumnType Value) : Database ColumnType Value :=
  boot S executeMigrations.length db

/-- Boots and insertions; a row the schema does not admit is refused. -/
def machine : Machine (Database ColumnType Value) Event Unit where
  step db
    | .boot n => ((), boot S n db)
    | .insert table row => ((), (Ddl.insert (domain S) db table row).getD db)

/-- The schema of a database: every table without its rows. -/
def schemaOf (db : Database ColumnType Value) (table : String) : Option (Shape ColumnType Value) :=
  (db table).map Relation.shape

/-! ## Stages -/

/-- How far a database is: what has been altered, and the rows of each table;
a table not yet created is `none`. -/
structure Stage where
  renamed : Bool
  hasEmail : Bool
  hasType : Bool
  users : List Row
  Categories : List Row
  Expenses : List Row
  Budgets : Option (List Row)
  Savings : Option (List Row)
  Goals : Option (List Row)

/-- The column `username`, before or after the rename. -/
def nameColumn (renamed : Bool) : Column ColumnType Value :=
  if renamed then displayName else notNull "username" (.varchar 50)

/-- `users` with and without the two alterations. -/
def usersShape (renamed hasEmail : Bool) : Shape ColumnType Value where
  columns := [notNull "id" .serial, nameColumn renamed, notNull "password_hash" (.varchar 255),
    nullable "created_at" .timestamp] ++ if hasEmail then [email] else []
  unique := ["id", (nameColumn renamed).name] ++ if hasEmail then ["email"] else []
  refs := []

/-- `Expenses` with and without its alteration. -/
def expensesShape (hasType : Bool) : Shape ColumnType Value where
  columns := expenses.columns ++ if hasType then [type] else []
  unique := expenses.unique
  refs := expenses.refs

namespace Stage

/-- The database of a stage. -/
def db (s : Stage) : Database ColumnType Value := fun table =>
  if table = "users" then some ⟨usersShape s.renamed s.hasEmail, s.users⟩
  else if table = "Categories" then some ⟨categories, s.Categories⟩
  else if table = "Expenses" then some ⟨expensesShape s.hasType, s.Expenses⟩
  else if table = "Budgets" then s.Budgets.map (⟨budgets, ·⟩)
  else if table = "Savings" then s.Savings.map (⟨savings, ·⟩)
  else if table = "Goals" then s.Goals.map (⟨goals, ·⟩)
  else none

/-- The rows of `users` are rows of its columns. -/
def Ok (s : Stage) : Prop :=
  ∀ row ∈ s.users, (usersShape s.renamed s.hasEmail).Fits (domain S) row

/-- The stage after `schema.sql`, with the default categories. -/
def start (categories : List Row) : Stage :=
  ⟨false, false, false, [], categories, [], none, none, none⟩

/-! What each statement sets. -/

def rename (s : Stage) : Stage := { s with renamed := true }

def addEmail (s : Stage) : Stage :=
  if s.hasEmail then s else { s with hasEmail := true, users := s.users.map (· ++ [none]) }

def addType (s : Stage) : Stage :=
  if s.hasType then s
  else { s with hasType := true, Expenses := s.Expenses.map (· ++ [type.dflt]) }

def createBudgets (s : Stage) : Stage := { s with Budgets := some (s.Budgets.getD []) }

def createSavings (s : Stage) : Stage := { s with Savings := some (s.Savings.getD []) }

def createGoals (s : Stage) : Stage := { s with Goals := some (s.Goals.getD []) }

/-- What a complete run makes of it. -/
def migrate (s : Stage) : Stage :=
  s.rename.addEmail.addType.createBudgets.createSavings.createGoals

/-- Two stages that differ in one table. -/
theorem update_eq {s s' : Stage} {table : String} {t : Relation ColumnType Value}
    (h : s'.db table = some t) (hother : ∀ x, x ≠ table → s'.db x = s.db x) :
    Function.update s.db table (some t) = s'.db := by
  funext x
  by_cases hx : x = table
  · subst hx
    rw [Function.update_self, h]
  · rw [Function.update_of_ne hx, hother x hx]

/-- The tables of a stage. -/
theorem db_cases {s : Stage} {table : String} {t : Relation ColumnType Value}
    (h : s.db table = some t) :
    table = "users" ∧ t = ⟨usersShape s.renamed s.hasEmail, s.users⟩ ∨
      table = "Categories" ∧ t = ⟨categories, s.Categories⟩ ∨
      table = "Expenses" ∧ t = ⟨expensesShape s.hasType, s.Expenses⟩ ∨
      table = "Budgets" ∧ s.Budgets = some t.rows ∧ t.shape = budgets ∨
      table = "Savings" ∧ s.Savings = some t.rows ∧ t.shape = savings ∨
      table = "Goals" ∧ s.Goals = some t.rows ∧ t.shape = goals := by
  have created : ∀ {rows : Option (List Row)} {shape : Shape ColumnType Value},
      rows.map (⟨shape, ·⟩) = some t → rows = some t.rows ∧ t.shape = shape := by
    intro rows shape h
    obtain ⟨l, hl, rfl⟩ := Option.map_eq_some_iff.mp h
    exact ⟨hl, rfl⟩
  unfold db at h
  split at h
  · exact Or.inl ⟨‹_›, (Option.some.inj h).symm⟩
  split at h
  · exact Or.inr (Or.inl ⟨‹_›, (Option.some.inj h).symm⟩)
  split at h
  · exact Or.inr (Or.inr (Or.inl ⟨‹_›, (Option.some.inj h).symm⟩))
  split at h
  · exact Or.inr (Or.inr (Or.inr (Or.inl ⟨‹_›, created h⟩)))
  split at h
  · exact Or.inr (Or.inr (Or.inr (Or.inr (Or.inl ⟨‹_›, created h⟩))))
  split at h
  · exact Or.inr (Or.inr (Or.inr (Or.inr (Or.inr ⟨‹_›, created h⟩))))
  · cases h

/-! ## What the statements do to a stage -/

section Statements

variable {S} (s : Stage)

/-- The text of a `username` fits the wider `display_name`. -/
theorem fits_displayName {row : Row} {b : Bool} (h : (usersShape false b).Fits (domain S) row) :
    displayName.fits (domain S) ((usersShape false b).value row "username") = true := by
  unfold Shape.Fits at h
  obtain ⟨i, tail, _, htail, rfl⟩ := List.forall₂_cons_left_iff.mp h
  obtain ⟨x, rest, hx, _, rfl⟩ := List.forall₂_cons_left_iff.mp htail
  show displayName.fits (domain S) x = true
  cases x with
  | none => exact rfl
  | some x =>
    cases x with
    | text t =>
      have hx : decide (S.chars t ≤ 50) = true := hx
      show decide (S.chars t ≤ 100) = true
      have := of_decide_eq_true hx
      apply decide_eq_true
      omega
    | _ => exact absurd hx Bool.false_ne_true

theorem attempt_change (hs : s.Ok S) :
    attempt (domain S) s.db (.change "users" "username" displayName) = s.rename.db := by
  have hdb : s.db "users" = some ⟨usersShape s.renamed s.hasEmail, s.users⟩ := rfl
  cases hr : s.renamed with
  | true =>
    have hsame : s.rename = s := by
      unfold rename
      rw [← hr]
    rw [hsame]
    apply attempt_change_of_notMem hdb
    show "username" ∉ (usersShape s.renamed s.hasEmail).names
    rw [hr]
    cases s.hasEmail <;> decide
  | false =>
    have hchange : (⟨usersShape s.renamed s.hasEmail, s.users⟩ : Relation _ _).change (domain S)
        "username" displayName = some ⟨usersShape true s.hasEmail, s.users⟩ := by
      unfold Relation.change
      rw [if_pos]
      · rw [hr]
        cases s.hasEmail <;> rfl
      · unfold Ok at hs
        rw [hr] at hs ⊢
        refine ⟨?_, ?_, fun row hrow => fits_displayName (hs row hrow)⟩
        · show "username" ∈ (usersShape false s.hasEmail).names
          cases s.hasEmail <;> decide
        · right
          show "display_name" ∉ (usersShape false s.hasEmail).names
          cases s.hasEmail <;> decide
    rw [attempt_change_of_some hdb hchange]
    exact update_eq rfl fun x hx => by simp [db, rename, hx]

theorem attempt_add_email :
    attempt (domain S) s.db (.add "users" email true) = s.addEmail.db := by
  have hdb : s.db "users" = some ⟨usersShape s.renamed s.hasEmail, s.users⟩ := rfl
  unfold addEmail
  cases he : s.hasEmail with
  | true =>
    rw [if_pos rfl]
    apply attempt_add_of_mem hdb
    show "email" ∈ (usersShape s.renamed s.hasEmail).names
    rw [he]
    cases s.renamed <;> decide
  | false =>
    rw [if_neg Bool.false_ne_true]
    have hadd : (⟨usersShape s.renamed s.hasEmail, s.users⟩ : Relation _ _).add (domain S) email true =
        some ⟨usersShape s.renamed true, s.users.map (· ++ [none])⟩ := by
      unfold Relation.add
      rw [if_pos]
      · rw [he]
        cases s.renamed <;> rfl
      · refine ⟨?_, rfl, fun _ h => absurd h Bool.false_ne_true⟩
        show "email" ∉ (usersShape s.renamed s.hasEmail).names
        rw [he]
        cases s.renamed <;> decide
    rw [attempt_add_of_some hdb hadd]
    exact update_eq rfl fun x hx => by simp [db, hx]

theorem attempt_add_type :
    attempt (domain S) s.db (.add "Expenses" type false) = s.addType.db := by
  have hdb : s.db "Expenses" = some ⟨expensesShape s.hasType, s.Expenses⟩ := rfl
  unfold addType
  cases ht : s.hasType with
  | true =>
    rw [if_pos rfl]
    apply attempt_add_of_mem hdb
    show "type" ∈ (expensesShape s.hasType).names
    rw [ht]
    decide
  | false =>
    rw [if_neg Bool.false_ne_true]
    have hadd : (⟨expensesShape s.hasType, s.Expenses⟩ : Relation _ _).add (domain S) type false =
        some ⟨expensesShape true, s.Expenses.map (· ++ [type.dflt])⟩ := by
      unfold Relation.add
      rw [if_pos]
      · rw [ht]
        rfl
      · refine ⟨?_, ?_, fun h => absurd h Bool.false_ne_true⟩
        · show "type" ∉ (expensesShape s.hasType).names
          rw [ht]
          decide
        · show List.contains [ascii "income", ascii "expense"] (ascii "expense") = true
          decide
    rw [attempt_add_of_some hdb hadd]
    exact update_eq rfl fun x hx => by simp [db, hx]

/-- The seed names a column `Categories` does not have. -/
theorem attempt_seed : attempt (domain S) s.db seedCategories = s.db := by
  have hdb : s.db "Categories" = some ⟨categories, s.Categories⟩ := rfl
  have hicon : "icon" ∉ categories.names := by decide
  exact attempt_insertIgnore_of_notMem hdb (by decide) hicon

/-- A table that is created, or is there. -/
theorem attempt_create {s s' : Stage} {table : String} {shape : Shape ColumnType Value}
    {rows : Option (List Row)} (hs : s.db table = rows.map (⟨shape, ·⟩))
    (hs' : s'.db table = some ⟨shape, rows.getD []⟩)
    (hother : ∀ x, x ≠ table → s'.db x = s.db x) :
    attempt (domain S) s.db (.create table shape) = s'.db := by
  cases rows with
  | none =>
    rw [attempt_create_of_none hs]
    exact update_eq hs' hother
  | some rows =>
    rw [attempt_create_of_some hs]
    funext x
    by_cases hx : x = table
    · subst hx
      rw [hs, hs']
      rfl
    · exact (hother x hx).symm

theorem attempt_createBudgets :
    attempt (domain S) s.db (.create "Budgets" budgets) = s.createBudgets.db := by
  have hdb : s.db "Budgets" = s.Budgets.map (⟨budgets, ·⟩) := rfl
  exact attempt_create hdb rfl fun x hx => by simp [db, createBudgets, hx]

theorem attempt_createSavings :
    attempt (domain S) s.db (.create "Savings" savings) = s.createSavings.db := by
  have hdb : s.db "Savings" = s.Savings.map (⟨savings, ·⟩) := rfl
  exact attempt_create hdb rfl fun x hx => by simp [db, createSavings, hx]

theorem attempt_createGoals :
    attempt (domain S) s.db (.create "Goals" goals) = s.createGoals.db := by
  have hdb : s.db "Goals" = s.Goals.map (⟨goals, ·⟩) := rfl
  exact attempt_create hdb rfl fun x hx => by simp [db, createGoals, hx]

/-! ## A complete run -/

theorem rename_ok (hs : s.Ok S) : s.rename.Ok S := by
  intro row hrow
  have hfit := hs row hrow
  unfold rename Shape.Fits at *
  cases hr : s.renamed with
  | true => rw [hr] at hfit; exact hfit
  | false =>
    rw [hr] at hfit
    have hname := fits_displayName hfit
    obtain ⟨i, tail, hi, htail, rfl⟩ := List.forall₂_cons_left_iff.mp hfit
    obtain ⟨x, rest, _, hrest, rfl⟩ := List.forall₂_cons_left_iff.mp htail
    exact .cons hi (.cons hname hrest)

theorem addEmail_ok (hs : s.Ok S) : s.addEmail.Ok S := by
  unfold addEmail
  cases he : s.hasEmail with
  | true => rw [if_pos rfl]; exact hs
  | false =>
    rw [if_neg Bool.false_ne_true]
    intro row hrow
    obtain ⟨r, hr, rfl⟩ := List.mem_map.mp hrow
    have hfit := hs r hr
    unfold Shape.Fits at *
    rw [he] at hfit
    -- the columns end in `email`, and the row in NULL
    have hcols : (usersShape s.renamed true).columns =
        (usersShape s.renamed false).columns ++ [email] := by
      cases s.renamed <;> rfl
    show List.Forall₂ _ (usersShape s.renamed true).columns _
    rw [hcols]
    exact List.rel_append hfit (.cons rfl .nil)

theorem addType_ok (hs : s.Ok S) : s.addType.Ok S := by
  unfold addType
  split <;> exact hs

theorem migrate_ok (hs : s.Ok S) : s.migrate.Ok S :=
  addType_ok _ (addEmail_ok _ (rename_ok _ hs))

/-- **A complete run** sets everything. -/
theorem completeRun_db (hs : s.Ok S) : completeRun S s.db = s.migrate.db := by
  unfold completeRun boot upgrade migrate
  rw [List.take_length]
  simp only [executeMigrations, List.foldl_cons, List.foldl_nil]
  rw [attempt_change s hs, attempt_add_email, attempt_add_type, attempt_seed, attempt_createBudgets,
    attempt_createSavings, attempt_createGoals]

theorem migrate_eq : s.migrate =
    { renamed := true
      hasEmail := true
      hasType := true
      users := if s.hasEmail then s.users else s.users.map (· ++ [none])
      Categories := s.Categories
      Expenses := if s.hasType then s.Expenses else s.Expenses.map (· ++ [type.dflt])
      Budgets := some (s.Budgets.getD [])
      Savings := some (s.Savings.getD [])
      Goals := some (s.Goals.getD []) } := by
  obtain ⟨renamed, hasEmail, hasType, users, Categories, Expenses, Budgets, Savings, Goals⟩ := s
  cases hasEmail <;> cases hasType <;> rfl

/-- Nothing is left to do. -/
theorem migrate_migrate : s.migrate.migrate = s.migrate := by
  rw [migrate_eq s.migrate, migrate_eq s]
  rfl

end Statements

end Stage

/-! ## Histories -/

/-- A database that boots and insertions leave. -/
def Rep (db : Database ColumnType Value) : Prop := ∃ s : Stage, s.Ok S ∧ db = s.db

section Histories

variable {S}

/-- Every statement of the migration keeps to the stages. -/
theorem rep_attempt : ∀ q ∈ executeMigrations, ∀ db, Rep S db → Rep S (attempt (domain S) db q) := by
  intro q hq db ⟨s, hs, hdb⟩
  subst hdb
  simp only [executeMigrations, List.mem_cons, List.not_mem_nil, or_false] at hq
  rcases hq with rfl | rfl | rfl | rfl | rfl | rfl | rfl
  · exact ⟨s.rename, Stage.rename_ok s hs, Stage.attempt_change s hs⟩
  · exact ⟨s.addEmail, Stage.addEmail_ok s hs, Stage.attempt_add_email s⟩
  · exact ⟨s.addType, Stage.addType_ok s hs, Stage.attempt_add_type s⟩
  · exact ⟨s, hs, Stage.attempt_seed s⟩
  · exact ⟨s.createBudgets, hs, Stage.attempt_createBudgets s⟩
  · exact ⟨s.createSavings, hs, Stage.attempt_createSavings s⟩
  · exact ⟨s.createGoals, hs, Stage.attempt_createGoals s⟩

theorem rep_boot (n : ℕ) {db : Database ColumnType Value} (h : Rep S db) : Rep S (boot S n db) :=
  upgrade_keeps (domain S) rep_attempt n h

/-- A row inserted is a row of its table. -/
theorem rep_insert {db db' : Database ColumnType Value} {table : String} {row : Row}
    (h : Rep S db) (hi : Ddl.insert (domain S) db table row = some db') : Rep S db' := by
  obtain ⟨s, hs, rfl⟩ := h
  unfold Ddl.insert at hi
  split at hi
  · cases hi
  rename_i t ht
  split at hi
  · rename_i hadm
    cases hi
    have hfit : t.shape.Fits (domain S) row := by
      unfold admitted at hadm
      simp only [Bool.and_eq_true, decide_eq_true_eq] at hadm
      exact hadm.1.1
    -- the table it goes to
    rcases Stage.db_cases ht with ⟨rfl, rfl⟩ | ⟨rfl, rfl⟩ | ⟨rfl, rfl⟩ | ⟨rfl, _, hshape⟩ |
      ⟨rfl, _, hshape⟩ | ⟨rfl, _, hshape⟩
    · refine ⟨{ s with users := s.users ++ [row] }, ?_, ?_⟩
      · intro r hr
        rcases List.mem_append.mp hr with hr | hr
        · exact hs r hr
        · rw [List.mem_singleton.mp hr]
          exact hfit
      · exact Stage.update_eq rfl fun x hx => by simp [Stage.db, hx]
    · exact ⟨{ s with Categories := s.Categories ++ [row] }, hs,
        Stage.update_eq rfl fun x hx => by simp [Stage.db, hx]⟩
    · exact ⟨{ s with Expenses := s.Expenses ++ [row] }, hs,
        Stage.update_eq rfl fun x hx => by simp [Stage.db, hx]⟩
    · rw [hshape]
      exact ⟨{ s with Budgets := some (t.rows ++ [row]) }, hs,
        Stage.update_eq rfl fun x hx => by simp [Stage.db, hx]⟩
    · rw [hshape]
      exact ⟨{ s with Savings := some (t.rows ++ [row]) }, hs,
        Stage.update_eq rfl fun x hx => by simp [Stage.db, hx]⟩
    · rw [hshape]
      exact ⟨{ s with Goals := some (t.rows ++ [row]) }, hs,
        Stage.update_eq rfl fun x hx => by simp [Stage.db, hx]⟩
  · cases hi

theorem rep_event : (machine S).Inductive (Rep S) := by
  intro db e h
  cases e with
  | boot n => exact rep_boot n h
  | insert table row =>
    show Rep S ((Ddl.insert (domain S) db table row).getD db)
    cases hi : Ddl.insert (domain S) db table row with
    | none => exact h
    | some db' => exact rep_insert h hi

/-- The three tables of `schema.sql`. -/
theorem createTables_start :
    upgrade (domain S) createTables 3 (fun _ => none) = (Stage.start []).db := by
  have hrun : upgrade (domain S) createTables 3 (fun _ => none) =
      Function.update (Function.update (Function.update (fun _ => none) "users" (some ⟨users, []⟩))
        "Categories" (some ⟨categories, []⟩)) "Expenses" (some ⟨expenses, []⟩) := by
    simp [upgrade, createTables, attempt, exec]
  rw [hrun]
  funext x
  simp only [Function.update_apply, Stage.db, Stage.start, Option.map_none]
  -- the last table created is looked at first
  by_cases hU : x = "users"
  · subst hU
    rfl
  by_cases hC : x = "Categories"
  · subst hC
    rfl
  simp only [hU, hC, if_false, ite_self]
  rfl

/-- `schema.sql` leaves the first stage. -/
theorem rep_schemaSql : Rep S (schemaSql S) := by
  unfold schemaSql
  rw [createTables_start]
  generalize List.map categoryRow _ = rows
  have h : Rep S (Stage.start []).db := ⟨.start [], List.forall_mem_nil _, rfl⟩
  generalize (Stage.start []).db = db at h
  induction rows generalizing db with
  | nil => exact h
  | cons row rows ih =>
    apply ih
    show Rep S ((Ddl.insert (domain S) db "Categories" row).getD db)
    cases hi : Ddl.insert (domain S) db "Categories" row with
    | none => exact h
    | some db' => exact rep_insert h hi

/-- **Every database of a history is that of a stage.** -/
theorem rep_history (events : List Event) : Rep S ((machine S).after (schemaSql S) events) :=
  rep_event.after rep_schemaSql events

end Histories

/-! ## Convergence -/

/-- The name of a column after the migration. -/
def columnAfter (table name : String) : String :=
  if table = "users" ∧ name = "username" then "display_name" else name

/-- The rows of a table are the rows they were, in their places: the old values
first, under the names their columns have now. -/
def KeepsRows (table : String) (t t' : Relation ColumnType Value) : Prop :=
  List.Forall₂ (· <+: ·) t.rows t'.rows ∧
    t'.shape.names.take t.shape.names.length = t.shape.names.map (columnAfter table)

/-- A complete run adds no row, and adds columns last. -/
theorem Stage.migrate_table (s : Stage) {table : String} {t : Relation ColumnType Value}
    (ht : s.db table = some t) : ∃ t', s.migrate.db table = some t' ∧
      t'.rows.length = t.rows.length ∧
      t'.shape.names.take t.shape.names.length = t.shape.names.map (columnAfter table) := by
  have hmigrate := migrate_eq s
  rcases Stage.db_cases ht with ⟨rfl, rfl⟩ | ⟨rfl, rfl⟩ | ⟨rfl, rfl⟩ | ⟨rfl, hrows, hshape⟩ |
    ⟨rfl, hrows, hshape⟩ | ⟨rfl, hrows, hshape⟩
  · refine ⟨_, congrFun (congrArg Stage.db hmigrate) "users", ?_, ?_⟩
    · show (if s.hasEmail then s.users else s.users.map (· ++ [none])).length = s.users.length
      split <;> simp
    · show (usersShape true true).names.take (usersShape s.renamed s.hasEmail).names.length =
        (usersShape s.renamed s.hasEmail).names.map (columnAfter "users")
      cases s.renamed <;> cases s.hasEmail <;> decide
  · refine ⟨_, congrFun (congrArg Stage.db hmigrate) "Categories", rfl, ?_⟩
    show categories.names.take categories.names.length = categories.names.map (columnAfter "Categories")
    decide
  · refine ⟨_, congrFun (congrArg Stage.db hmigrate) "Expenses", ?_, ?_⟩
    · show (if s.hasType then s.Expenses else s.Expenses.map (· ++ [type.dflt])).length =
        s.Expenses.length
      split <;> simp
    · show (expensesShape true).names.take (expensesShape s.hasType).names.length =
        (expensesShape s.hasType).names.map (columnAfter "Expenses")
      cases s.hasType <;> decide
  · refine ⟨_, congrFun (congrArg Stage.db hmigrate) "Budgets", ?_, ?_⟩
    · show (s.Budgets.getD []).length = t.rows.length
      rw [hrows, Option.getD_some]
    · rw [hshape]
      show budgets.names.take budgets.names.length = budgets.names.map (columnAfter "Budgets")
      decide
  · refine ⟨_, congrFun (congrArg Stage.db hmigrate) "Savings", ?_, ?_⟩
    · show (s.Savings.getD []).length = t.rows.length
      rw [hrows, Option.getD_some]
    · rw [hshape]
      show savings.names.take savings.names.length = savings.names.map (columnAfter "Savings")
      decide
  · refine ⟨_, congrFun (congrArg Stage.db hmigrate) "Goals", ?_, ?_⟩
    · show (s.Goals.getD []).length = t.rows.length
      rw [hrows, Option.getD_some]
    · rw [hshape]
      show goals.names.take goals.names.length = goals.names.map (columnAfter "Goals")
      decide

/-- The schema a complete run ends in. -/
def finalSchema (table : String) : Option (Shape ColumnType Value) :=
  if table = "users" then some
    { columns := [notNull "id" .serial, nullable "display_name" (.varchar 100),
        notNull "password_hash" (.varchar 255), nullable "created_at" .timestamp,
        nullable "email" (.varchar 255)]
      unique := ["id", "display_name", "email"]
      refs := [] }
  else if table = "Categories" then some categories
  else if table = "Expenses" then some { expenses with columns := expenses.columns ++ [type] }
  else if table = "Budgets" then some budgets
  else if table = "Savings" then some savings
  else if table = "Goals" then some goals
  else none

theorem Stage.schemaOf_migrate (s : Stage) : schemaOf s.migrate.db = finalSchema := by
  funext table
  rw [migrate_eq]
  unfold schemaOf finalSchema Stage.db
  split
  · rfl
  split
  · rfl
  split
  · rfl
  split
  · rfl
  split
  · rfl
  split <;> rfl

/-- **Convergence.** After any history, a complete run reaches the schema of a
complete run on the fresh database, keeps all rows, and leaves nothing for a
further run to do. -/
theorem migration_converges (S : Charset) (events : List Event) :
    let db := (machine S).after (schemaSql S) events
    (schemaOf (completeRun S db) = finalSchema ∧
      schemaOf (completeRun S (schemaSql S)) = finalSchema) ∧
    (∀ table t, db table = some t →
      ∃ t', completeRun S db table = some t' ∧ KeepsRows table t t') ∧
    completeRun S (completeRun S db) = completeRun S db := by
  intro db
  obtain ⟨s, hs, hdb⟩ : Rep S db := rep_history events
  obtain ⟨s₀, hs₀, hfresh⟩ : Rep S (schemaSql S) := rep_schemaSql
  have hrun : completeRun S db = s.migrate.db := by rw [hdb, Stage.completeRun_db s hs]
  refine ⟨⟨?_, ?_⟩, ?_, ?_⟩
  · rw [hrun, Stage.schemaOf_migrate]
  · rw [hfresh, Stage.completeRun_db s₀ hs₀, Stage.schemaOf_migrate]
  · intro table t ht
    have hext : Extends db (completeRun S db) := extends_upgrade _ _ db
    obtain ⟨t', ht', he⟩ := hext table t ht
    rw [hdb] at ht
    obtain ⟨u, hu, hlen, hnames⟩ := s.migrate_table ht
    rw [hrun, hu] at ht'
    cases ht'
    exact ⟨t', by rw [hrun, hu], he.forall₂ hlen, hnames⟩
  · rw [hrun, Stage.completeRun_db _ (Stage.migrate_ok s hs), Stage.migrate_migrate]

end ExpenseTracker.L2.Migration
