import ExpenseTracker.L4Service.Refinement

/-!
# Integers from the client

Crow hands a handler the path argument of a deletion and the `category_id`
of a body as `int64_t`. The lambda parameter, the struct field and the
parameters of `DBManager` are `int`, so the value wraps modulo 2^32 before
it is printed into the statement.

* `path_iff`: the statement of a deletion names the row asked for, and no other row
  goes, exactly for the arguments an `int` holds.
* `category_iff`: the same of the category of an expense.
* `client_integers`: both.
-/
namespace ExpenseTracker.L4.Integers

open ExpenseTracker.Core ExpenseTracker.L1.Amount ExpenseTracker.L1.Password
open ExpenseTracker.L2.Schema ExpenseTracker.L2.Statement ExpenseTracker.L2.Server
open ExpenseTracker.L3.Json ExpenseTracker.L3.DbManager ExpenseTracker.L3.Routes
open ExpenseTracker.L3.Serve ExpenseTracker.L4.Tokens

/-- The values of an `int`. -/
def InInt (n : ℤ) : Prop := -2 ^ 31 ≤ n ∧ n < 2 ^ 31

instance (n : ℤ) : Decidable (InInt n) := inferInstanceAs (Decidable (_ ∧ _))

/-- The lambda takes Crow's `int64_t` as an `int`.
mirrors src/src/main.cpp:131 -/
def deleteRoute (n : Int64) : Route := .deleteExpense n.toInt32

/-! ## Conversions -/

/-- A value survives the conversion exactly when an `int` holds it. -/
theorem toInt_ofInt_eq_iff (n : ℤ) : (Int32.ofInt n).toInt = n ↔ InInt n := by
  refine ⟨?_, ?_⟩
  · intro h
    have hlo := (Int32.ofInt n).le_toInt
    have hhi := (Int32.ofInt n).toInt_lt
    unfold InInt
    omega
  · intro ⟨hlo, hhi⟩
    exact Int32.toInt_ofInt_of_le hlo hhi

theorem toInt_toInt32_eq_iff (n : Int64) : n.toInt32.toInt = n.toInt ↔ InInt n.toInt := by
  rw [← toInt_ofInt_eq_iff, Int64.toInt_toInt32, Int32.toInt_ofInt]

/-! ## What is written -/

variable (C : Crypto) (auth : Request → Int32) (ms : MySql)

/-- The statements a request sends. -/
def statements (call : Call) (c : Conn Db ResultSet) : List Stmt :=
  (handle C auth call.route call.req).issued (exec ms) call.fault c

def deleteText (n : ℤ) : Bytes := ascii "DELETE FROM Expenses WHERE id = " ++ intText n

/-- The text of `addExpense` with `n` for the category. -/
def insertText (exp : Expense) (n : ℤ) : Bytes :=
  ascii ("INSERT INTO Expenses (user_id, category_id, amount, description, " ++
      "expense_date, type) VALUES (") ++
    intText exp.user_id.toInt ++ ascii ", " ++
    intText n ++ ascii ", " ++
    doubleText exp.amount ++ ascii ", '" ++
    exp.description ++ ascii "', '" ++
    exp.expense_date ++ ascii "', '" ++
    exp.type ++ ascii "')"

/-- A deletion of `n` writes `n` or nothing, and no row goes but row `n`. -/
def PathKept (req : Request) (f : Fault) (n : Int64) (db : Db) : Prop :=
  (∀ q ∈ statements C auth ms ⟨deleteRoute n, req, f⟩ (.idle db), q.text = deleteText n.toInt) ∧
    ∀ r ∈ db.Expenses.rows,
      r ∉ ((server C auth ms).next (.idle db) ⟨deleteRoute n, req, f⟩).db.Expenses.rows →
        r.1.toInt = n.toInt

/-- An expense posted with category `n` is written with `n`, or not at all. -/
def CategoryKept (req : Request) (f : Fault) (n : ℤ) (db : Db) : Prop :=
  ∀ q ∈ statements C auth ms ⟨.postExpenses, req, f⟩ (.idle db),
    ∃ exp, q = .insertExpense exp ∧ q.text = insertText exp n

variable {C auth ms} {req : Request} {f : Fault} {db : Db}

theorem statements_delete (n : Int64) :
    statements C auth ms ⟨deleteRoute n, req, f⟩ (.idle db) =
      if auth req = -1 then [] else [.deleteExpense n.toInt32] := by
  have h : statements C auth ms ⟨deleteRoute n, req, f⟩ (.idle db) =
      (storing C auth ⟨deleteRoute n, req, f⟩).toList := issued_writes rfl
  rw [h]
  simp only [storing, deleteRoute]
  split <;> rfl

theorem statements_post : statements C auth ms ⟨.postExpenses, req, f⟩ (.idle db) =
    (postStmt auth readExpenseBody .insertExpense req).toList := issued_writes rfl

theorem text_delete_iff (id : Int32) (n : ℤ) :
    (Stmt.deleteExpense id).text = deleteText n ↔ id.toInt = n := by
  refine ⟨?_, ?_⟩
  · intro h
    exact intText_injective (List.append_cancel_left h)
  · intro h
    subst h
    rfl

theorem text_insert_iff (exp : Expense) (n : ℤ) :
    (Stmt.insertExpense exp).text = insertText exp n ↔ exp.category_id.toInt = n := by
  refine ⟨?_, ?_⟩
  · intro h
    have h : insertText exp exp.category_id.toInt = insertText exp n := h
    unfold insertText at h
    simp only [List.append_assoc, List.append_cancel_left_eq] at h
    simp only [← List.append_assoc, List.append_cancel_right_eq] at h
    exact intText_injective h
  · intro h
    subst h
    rfl

/-- A row that goes is the one the statement names. -/
theorem removed_delete {n : Int64} {r : Int32 × ExpenseRow} (hr : r ∈ db.Expenses.rows)
    (hgone : r ∉ ((server C auth ms).next (.idle db) ⟨deleteRoute n, req, f⟩).db.Expenses.rows) :
    auth req ≠ -1 ∧ r.1 = n.toInt32 := by
  rw [(idle_idle db).next] at hgone
  simp only [storing, deleteRoute] at hgone
  by_cases ha : auth req = -1
  · simp only [if_pos ha, Option.bind_none, Option.getD_none] at hgone
    exact absurd hr hgone
  refine ⟨ha, ?_⟩
  by_contra hne
  apply hgone
  simp only [if_neg ha, Option.bind_some, stored, exec_deleteExpense]
  split
  · exact hr
  · exact Table.mem_delete.mpr ⟨hr, hne⟩

theorem path_iff (n : Int64) : PathKept C auth ms req f n db ↔ auth req = -1 ∨ InInt n.toInt := by
  unfold PathKept
  rw [statements_delete]
  refine ⟨?_, ?_⟩
  · intro ⟨h, _⟩
    by_cases ha : auth req = -1
    · exact Or.inl ha
    rw [if_neg ha] at h
    right
    apply (toInt_toInt32_eq_iff n).mp
    exact (text_delete_iff _ _).mp (h _ (List.mem_singleton_self _))
  · intro h
    refine ⟨?_, ?_⟩
    · intro q hq
      by_cases ha : auth req = -1
      · simp [ha] at hq
      rw [if_neg ha, List.mem_singleton] at hq
      subst hq
      apply (text_delete_iff _ _).mpr
      exact (toInt_toInt32_eq_iff n).mpr (h.resolve_left ha)
    · intro r hr hgone
      obtain ⟨ha, hid⟩ := removed_delete hr hgone
      rw [hid]
      exact (toInt_toInt32_eq_iff n).mpr (h.resolve_left ha)

/-- The record read has the category of the body, as an `int`. -/
theorem category_readExpenseBody {u : Int32} {x : RValue} {n : ℤ} {exp : Expense}
    (hn : x.fieldOr "category_id" RValue.i 0 = .ok n) (h : readExpenseBody u x = .ok exp) :
    exp.category_id = Int32.ofInt n := by
  unfold readExpenseBody at h
  obtain ⟨m, hm, h⟩ := bind_eq_ok.mp h
  simp only [bind_eq_ok] at h
  obtain ⟨_, _, _, _, _, _, _, _, h⟩ := h
  cases hn.symm.trans hm
  cases h
  rfl

theorem category_iff {x : RValue} {n : ℤ} (hb : req.body = some x)
    (hn : x.fieldOr "category_id" RValue.i 0 = .ok n) :
    CategoryKept C auth ms req f n db ↔
      auth req = -1 ∨ (∃ e, readExpenseBody (auth req) x = .error e) ∨ InInt n := by
  unfold CategoryKept
  rw [statements_post]
  by_cases ha : auth req = -1
  · simp [postStmt, ha]
  cases hr : readExpenseBody (auth req) x with
  | error e =>
    have hs : postStmt auth readExpenseBody .insertExpense req = none := by
      simp only [postStmt, if_neg ha, hb, hr]
    simp [hs]
  | ok exp =>
    have hs : postStmt auth readExpenseBody .insertExpense req = some (.insertExpense exp) :=
      Refinement.postStmt_ok ha hb hr
    have hc := category_readExpenseBody hn hr
    rw [hs, Option.toList_some]
    refine ⟨?_, ?_⟩
    · intro h
      obtain ⟨exp', he, ht⟩ := h _ (List.mem_singleton_self _)
      cases he
      right; right
      rw [← toInt_ofInt_eq_iff, ← hc]
      exact (text_insert_iff _ _).mp ht
    · intro h q hq
      refine ⟨exp, List.mem_singleton.mp hq, ?_⟩
      rw [List.mem_singleton.mp hq, text_insert_iff, hc]
      apply (toInt_ofInt_eq_iff n).mpr
      rcases h with h | ⟨e, he⟩ | h
      · exact absurd h ha
      · cases he
      · exact h

/-- **Integers from the client.** They reach the statement as they are, or no
statement is sent, exactly for rejected requests and the values of an `int`. -/
theorem client_integers (C : Crypto) (auth : Request → Int32) (ms : MySql) (req : Request)
    (f : Fault) (db : Db) :
    (∀ n : Int64, PathKept C auth ms req f n db ↔ auth req = -1 ∨ InInt n.toInt) ∧
    ∀ (x : RValue) (n : ℤ), req.body = some x → x.fieldOr "category_id" RValue.i 0 = .ok n →
      (CategoryKept C auth ms req f n db ↔
        auth req = -1 ∨ (∃ e, readExpenseBody (auth req) x = .error e) ∨ InInt n) :=
  ⟨fun n => path_iff n, fun _ _ hb hn => category_iff hb hn⟩

/-- A lunch in category 2^32 + 1. -/
def farLunch : RValue := .object
  [(ascii "category_id", .number ⟨false, 4294967297, 0, 0, 0⟩),
    (ascii "amount", .number ⟨false, 0, 0, 0, 0⟩), (ascii "description", jsonString "lunch"),
    (ascii "expense_date", jsonString "2024-05-01")]

/-- The path argument 1 and the category 1 of an `int` arrive. -/
theorem client_integers_ann :
    PathKept Crypto.zero (authenticate Crypto.zero) MySql.plain
        (bearer annToken (some Isolation.lunch)) .none 1 Reads.annsDb ∧
      CategoryKept Crypto.zero (authenticate Crypto.zero) MySql.plain
        (bearer annToken (some Isolation.lunch)) .none 1 Reads.annsDb := by
  have h := client_integers Crypto.zero (authenticate Crypto.zero) MySql.plain
    (bearer annToken (some Isolation.lunch)) .none Reads.annsDb
  exact ⟨(h.1 1).mpr (Or.inr (by decide)), (h.2 _ 1 rfl rfl).mpr (Or.inr (Or.inr (by decide)))⟩

/-- `DELETE /api/expenses/4294967297` deletes row 1, and an expense in category
4294967297 is stored in category 1. -/
theorem client_integers_wrap :
    (((server Crypto.zero (authenticate Crypto.zero) MySql.plain).next (.idle Reads.annsDb)
        ⟨deleteRoute 4294967297, bearer annToken none, .none⟩).db.Expenses.rows.map Prod.fst = [] ∧
      ¬ PathKept Crypto.zero (authenticate Crypto.zero) MySql.plain (bearer annToken none) .none
        4294967297 Reads.annsDb) ∧
    ((server Crypto.zero (authenticate Crypto.zero) MySql.plain).next (.idle Refinement.annsHome)
        ⟨.postExpenses, bearer annToken (some farLunch), .none⟩).db.Expenses.rows.map
          (fun r => r.2.category_id) = [some 1] ∧
      ¬ CategoryKept Crypto.zero (authenticate Crypto.zero) MySql.plain
        (bearer annToken (some farLunch)) .none 4294967297 Refinement.annsHome := by
  refine ⟨⟨by decide +kernel, ?_⟩, by decide +kernel, ?_⟩
  · rw [path_iff, Reads.authenticate_ann]
    decide
  · obtain ⟨exp, hread⟩ : ∃ exp, readExpenseBody 1 farLunch = .ok exp := ⟨_, rfl⟩
    rw [category_iff rfl rfl, Reads.authenticate_ann, hread]
    intro h
    rcases h with h | ⟨e, he⟩ | h
    · exact absurd h (by decide)
    · cases he
    · exact absurd h (by decide)

end ExpenseTracker.L4.Integers
