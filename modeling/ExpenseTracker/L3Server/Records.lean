import ExpenseTracker.L3Server.Serve

/-!
# What a row stands for

The record a stored row stands for, and what its reader makes of it: a NULL
becomes the reader's default, a text ends at its first NUL byte, and a NULL
amount is an exception. `Reader` states this once for the four collections.

* `Reader.listed_ok`, `Reader.listed_error`: what a list of rows reads as.
* `Reader.listed_whole`: where no text has a NUL byte these are the records.
-/
namespace ExpenseTracker.L3.Records

open ExpenseTracker.Core ExpenseTracker.L1.Amount
open ExpenseTracker.L2.Schema ExpenseTracker.L2.Statement ExpenseTracker.L2.Server
open ExpenseTracker.L3.Json ExpenseTracker.L3.DbManager ExpenseTracker.L3.Routes
open ExpenseTracker.L3.Serve

/-- How the rows of a collection are read and written: the record a row
stands for (`ofRow`), the row with its texts cut at a NUL (`cut`), and the
columns the reader needs (`null`). -/
structure Reader (ρ α : Type) where
  cells : Int32 × ρ → Row
  read : Row → Except Exn α
  json : α → WValue
  owner : ρ → Option Int32
  texts : ρ → List Bytes
  null : ρ → Bool
  ofRow : Int32 × ρ → α
  cut : ρ → ρ
  read_cells : ∀ r, owner r.2 ≠ none → null r.2 = false →
    read (cells r) = .ok (ofRow (r.1, cut r.2))
  read_null : ∀ r, null r.2 = true → ∃ e, read (cells r) = .error e
  cut_plain : ∀ r, (∀ s ∈ texts r, (0 : UInt8) ∉ s) → cut r = r
  json_cut : ∀ r r' : Int32 × ρ, json (ofRow r) = json (ofRow (r'.1, cut r'.2)) →
    ∀ s ∈ texts r.2, (0 : UInt8) ∉ s

namespace Reader

variable {ρ α : Type} (R : Reader ρ α) (t : Table ρ) (u : Int32)

/-- The user's rows. -/
def rows : List (Int32 × ρ) := t.select fun r => R.owner r == some u

/-- What the GET route makes of them. -/
def listed : Except Exn (List WValue) :=
  (((R.rows t u).map R.cells).mapM R.read).map (List.map R.json)

/-- What they are. -/
def shown : List WValue := (R.rows t u).map fun r => R.json (R.ofRow r)

/-- One of them has no amount. -/
def hasNull : Bool := (R.rows t u).any fun r => R.null r.2

/-- None of their texts has a NUL byte. -/
def Plain : Prop := ∀ r ∈ R.rows t u, ∀ s ∈ R.texts r.2, (0 : UInt8) ∉ s

variable {t u}

theorem listed_ok (h : R.hasNull t u = false) :
    R.listed t u = .ok ((R.rows t u).map fun r => R.json (R.ofRow (r.1, R.cut r.2))) := by
  have hread : ∀ row ∈ R.rows t u, R.read (R.cells row) = .ok (R.ofRow (row.1, R.cut row.2)) := by
    intro r hr
    have hn : R.null r.2 = false := by
      simpa using List.any_eq_false.mp h r hr
    refine R.read_cells r ?_ hn
    rw [beq_iff_eq.mp (Table.mem_select.mp hr).2]
    exact Option.some_ne_none u
  have hmap : ((R.rows t u).map R.cells).mapM R.read =
      .ok ((R.rows t u).map fun r => R.ofRow (r.1, R.cut r.2)) := by
    rw [List.mapM_map]
    exact mapM_ok hread
  rw [listed, hmap]
  simp only [Except.map, List.map_map]
  rfl

theorem listed_error (h : R.hasNull t u = true) : ∃ e, R.listed t u = .error e := by
  obtain ⟨r, hr, hn⟩ := List.any_eq_true.mp h
  obtain ⟨e, he⟩ := mapM_error (List.mem_map_of_mem hr) (R.read_null r hn)
  exact ⟨e, by rw [listed, he]; rfl⟩

/-- Rows that are whole read as the records they stand for. -/
theorem listed_whole (user : α → Int32) (h : ∀ r ∈ t.rows,
    R.owner r.2 = some (user (R.ofRow r)) ∧ R.null r.2 = false ∧
      ∀ s ∈ R.texts r.2, (0 : UInt8) ∉ s) :
    R.listed t u = .ok (((t.rows.map R.ofRow).filter fun a => user a == u).map R.json) := by
  have hnull : R.hasNull t u = false := by
    rw [hasNull, List.any_eq_false]
    intro r hr
    rw [(h r (Table.mem_select.mp hr).1).2.1]
    exact Bool.false_ne_true
  rw [R.listed_ok hnull, List.filter_map, List.map_map]
  have hrows : R.rows t u = t.rows.filter ((fun a => user a == u) ∘ R.ofRow) :=
    List.filter_congr fun r hr => by
      have ho := (h r hr).1
      simp only [Function.comp_apply, ho]
      rfl
  rw [hrows]
  refine congrArg Except.ok (List.map_congr_left fun r hr => ?_)
  rw [R.cut_plain r.2 (h r (List.mem_of_mem_filter hr)).2.2]
  rfl

end Reader

/-! ## The four collections -/

theorem textOr_ofText (d : Bytes) (o : Option Bytes) :
    textOr d (.ofText o) = (o.map cStr).getD d := by
  cases o <;> rfl

theorem noNul_getD {d : Bytes} (hd : (0 : UInt8) ∉ d) (o : Option Bytes) :
    (0 : UInt8) ∉ (o.map cStr).getD d := by
  cases o with
  | none => exact hd
  | some s => exact noNul_cStr s

theorem map_cStr {o : Option Bytes} (h : ∀ s ∈ o.toList, (0 : UInt8) ∉ s) : o.map cStr = o := by
  cases o with
  | none => rfl
  | some s => rw [Option.map_some, cStr_of_noNul (h s (by simp))]

/-- A text that is shown like a cut one has no NUL. -/
theorem noNul_of_eq {d : Bytes} (hd : (0 : UInt8) ∉ d) {o o' : Option Bytes}
    (h : o.getD d = (o'.map cStr).getD d) : ∀ s ∈ o.toList, (0 : UInt8) ∉ s := by
  intro s hs
  cases Option.mem_toList.mp hs
  rw [Option.getD_some] at h
  rw [h]
  exact noNul_getD hd o'

def expenseOf (r : Int32 × ExpenseRow) : Expense where
  id := r.1
  user_id := r.2.user_id
  category_id := r.2.category_id.getD 0
  amount := ofCents r.2.amount
  description := r.2.description.getD []
  expense_date := r.2.expense_date
  type := r.2.type.getD (ascii "expense")

def expenseReader : Reader ExpenseRow Expense where
  cells := expenseCells
  read := readExpense
  json := expenseJson
  owner r := some r.user_id
  texts r := r.description.toList ++ r.expense_date :: r.type.toList
  null _ := false
  ofRow := expenseOf
  cut r := { r with description := r.description.map cStr, expense_date := cStr r.expense_date,
                    type := r.type.map cStr }
  read_cells := by
    intro r _ _
    simp only [readExpense, expenseCells, col, List.getD_cons_zero, List.getD_cons_succ, textOr_ofText]
    cases r.2.category_id <;> rfl
  read_null r h := by cases h
  cut_plain := by
    intro r h
    have h1 : r.description.map cStr = r.description := map_cStr fun s hs => h s (by simp_all)
    have h2 : r.type.map cStr = r.type := map_cStr fun s hs => h s (by simp_all)
    have h3 : cStr r.expense_date = r.expense_date := cStr_of_noNul (h _ (by simp))
    rw [h1, h2, h3]
  json_cut := by
    intro r r' h s hs
    simp only [expenseJson, expenseOf, WValue.object.injEq, List.cons.injEq, Prod.mk.injEq,
      WValue.string.injEq, true_and, and_true] at h
    obtain ⟨_, _, _, _, hd, he, ht⟩ := h
    simp only [List.mem_append, List.mem_cons] at hs
    rcases hs with hs | rfl | hs
    · exact noNul_of_eq (by simp) hd s hs
    · rw [he]
      exact noNul_cStr _
    · exact noNul_of_eq (by decide) ht s hs

/-- A NULL amount is never shown. -/
def budgetOf (r : Int32 × BudgetRow) : Budget where
  id := r.1
  user_id := r.2.user_id.getD 0
  category_name := r.2.category_name.getD []
  target_amount := r.2.target_amount.getD .zero

def budgetReader : Reader BudgetRow Budget where
  cells := budgetCells
  read := readBudget
  json := budgetJson
  owner := BudgetRow.user_id
  texts r := r.category_name.toList
  null r := r.target_amount.isNone
  ofRow := budgetOf
  cut r := { r with category_name := r.category_name.map cStr }
  read_cells := by
    intro ⟨id, user_id, category_name, target_amount⟩ ho hn
    cases user_id with
    | none => exact absurd rfl ho
    | some u =>
      cases target_amount with
      | none => cases hn
      | some x =>
        simp only [readBudget, budgetCells, col, List.getD_cons_zero, List.getD_cons_succ,
          textOr_ofText]
        rfl
  read_null := by
    intro ⟨id, user_id, category_name, target_amount⟩ hn
    cases target_amount with
    | some x => cases hn
    | none => cases user_id <;> exact ⟨.logic_error, rfl⟩
  cut_plain := by
    intro r h
    rw [map_cStr h]
  json_cut := by
    intro r r' h s hs
    simp only [budgetJson, budgetOf, WValue.object.injEq, List.cons.injEq, Prod.mk.injEq,
      WValue.string.injEq, true_and, and_true] at h
    exact noNul_of_eq (by simp) h.2.1 s hs

def savingOf (r : Int32 × SavingRow) : SavingTx where
  id := r.1
  user_id := r.2.user_id.getD 0
  amount := r.2.amount.getD .zero
  description := r.2.description.getD []
  transaction_date := r.2.transaction_date.getD []

def savingReader : Reader SavingRow SavingTx where
  cells := savingCells
  read := readSavingTx
  json := savingJson
  owner := SavingRow.user_id
  texts r := r.description.toList ++ r.transaction_date.toList
  null r := r.amount.isNone
  ofRow := savingOf
  cut r := { r with description := r.description.map cStr,
                    transaction_date := r.transaction_date.map cStr }
  read_cells := by
    intro ⟨id, user_id, amount, description, transaction_date⟩ ho hn
    cases user_id with
    | none => exact absurd rfl ho
    | some u =>
      cases amount with
      | none => cases hn
      | some x =>
        simp only [readSavingTx, savingCells, col, List.getD_cons_zero, List.getD_cons_succ,
          textOr_ofText]
        rfl
  read_null := by
    intro ⟨id, user_id, amount, description, transaction_date⟩ hn
    cases amount with
    | some x => cases hn
    | none => cases user_id <;> exact ⟨.logic_error, rfl⟩
  cut_plain := by
    intro r h
    have h1 : r.description.map cStr = r.description := map_cStr fun s hs => h s (by simp_all)
    have h2 : r.transaction_date.map cStr = r.transaction_date :=
      map_cStr fun s hs => h s (by simp_all)
    rw [h1, h2]
  json_cut := by
    intro r r' h s hs
    simp only [savingJson, savingOf, WValue.object.injEq, List.cons.injEq, Prod.mk.injEq,
      WValue.string.injEq, true_and, and_true] at h
    obtain ⟨_, _, hd, ht⟩ := h
    rcases List.mem_append.mp hs with hs | hs
    · exact noNul_of_eq (by simp) hd s hs
    · exact noNul_of_eq (by simp) ht s hs

def goalOf (r : Int32 × GoalRow) : Goal where
  id := r.1
  user_id := r.2.user_id.getD 0
  title := r.2.title.getD []
  target_amount := r.2.target_amount.getD .zero
  saved_amount := r.2.saved_amount.getD .zero
  deadline := r.2.deadline.getD []
  priority := r.2.priority.getD (ascii "Medium")

def goalReader : Reader GoalRow Goal where
  cells := goalCells
  read := readGoal
  json := goalJson
  owner := GoalRow.user_id
  texts r := r.title.toList ++ r.deadline.toList ++ r.priority.toList
  null r := r.target_amount.isNone || r.saved_amount.isNone
  ofRow := goalOf
  cut r := { r with title := r.title.map cStr, deadline := r.deadline.map cStr,
                    priority := r.priority.map cStr }
  read_cells := by
    intro ⟨id, user_id, title, target_amount, saved_amount, deadline, priority⟩ ho hn
    cases user_id with
    | none => exact absurd rfl ho
    | some u =>
      cases target_amount with
      | none => cases hn
      | some x =>
        cases saved_amount with
        | none => cases hn
        | some y =>
          simp only [readGoal, goalCells, col, List.getD_cons_zero, List.getD_cons_succ,
            textOr_ofText]
          rfl
  read_null := by
    intro ⟨id, user_id, title, target_amount, saved_amount, deadline, priority⟩ hn
    cases target_amount with
    | none => cases user_id <;> exact ⟨.logic_error, rfl⟩
    | some x =>
      cases saved_amount with
      | none => cases user_id <;> exact ⟨.logic_error, rfl⟩
      | some y => cases hn
  cut_plain := by
    intro r h
    have h1 : r.title.map cStr = r.title := map_cStr fun s hs => h s (by simp_all)
    have h2 : r.deadline.map cStr = r.deadline := map_cStr fun s hs => h s (by simp_all)
    have h3 : r.priority.map cStr = r.priority := map_cStr fun s hs => h s (by simp_all)
    rw [h1, h2, h3]
  json_cut := by
    intro r r' h s hs
    simp only [goalJson, goalOf, WValue.object.injEq, List.cons.injEq, Prod.mk.injEq,
      WValue.string.injEq, true_and, and_true] at h
    obtain ⟨_, ht, _, _, hd, hp⟩ := h
    rcases List.mem_append.mp hs with hs | hs
    · rcases List.mem_append.mp hs with hs | hs
      · exact noNul_of_eq (by simp) ht s hs
      · exact noNul_of_eq (by simp) hd s hs
    · exact noNul_of_eq (by decide) hp s hs

/-! ## By collection -/

/-- The user's rows of a collection, as the records they stand for. -/
def shown (db : Db) (u : Int32) : Collection → List WValue
  | .Expenses => expenseReader.shown db.Expenses u
  | .Budgets => budgetReader.shown db.Budgets u
  | .Savings => savingReader.shown db.Savings u
  | .Goals => goalReader.shown db.Goals u

/-- One of them has no amount. -/
def hasNull (db : Db) (u : Int32) : Collection → Bool
  | .Expenses => expenseReader.hasNull db.Expenses u
  | .Budgets => budgetReader.hasNull db.Budgets u
  | .Savings => savingReader.hasNull db.Savings u
  | .Goals => goalReader.hasNull db.Goals u

/-- None of their texts has a NUL byte. -/
def PlainTexts (db : Db) (u : Int32) : Collection → Prop
  | .Expenses => expenseReader.Plain db.Expenses u
  | .Budgets => budgetReader.Plain db.Budgets u
  | .Savings => savingReader.Plain db.Savings u
  | .Goals => goalReader.Plain db.Goals u

theorem listed_Expenses (db : Db) (u : Int32) :
    listed db u .Expenses = expenseReader.listed db.Expenses u := by
  have h : ∀ r : ExpenseRow, (some r.user_id == some u) = (r.user_id == u) := fun r => rfl
  simp only [listed, Reader.listed, Reader.rows, expenseReader, h]

end ExpenseTracker.L3.Records
