import ExpenseTracker.Core.SharedConn
import ExpenseTracker.L3Server.DbManager

/-!
# Handlers on one connection

`multithreaded()` runs the handlers on a pool of workers, all on the one global
`DBManager db`. Each handler performs one operation, and the calls of several
operations interleave in any order: there is no lock between a query and the
fetch of its result set.

* `transaction_prog`: every operation is one query and at most one fetch.
* `workers_serialisable`: a run in which no query is issued while a result set
  is still to be fetched answers as one operation after another.
* `clash_refused`: an operation whose query is issued then is refused.
* `workers_login_refused`: so a valid login finds no hash.
-/
namespace ExpenseTracker.L4.Workers

open ExpenseTracker.Core ExpenseTracker.L2.Schema ExpenseTracker.L2.Statement
open ExpenseTracker.L2.Server ExpenseTracker.L3 ExpenseTracker.L3.Json ExpenseTracker.L3.DbManager

/-! ## Operations -/

/-- The operation a handler performs. -/
inductive Operation where
  | registerUser (email display_name password_hash : Bytes)
  | getPasswordHash (email : Bytes) (user_id : Int32) (display_name : Bytes)
  | addExpense (exp : Expense)
  | getExpenses (user_id : Int32)
  | deleteExpense (id : Int32)
  | addBudget (b : Budget)
  | getBudgets (user_id : Int32)
  | addSavingTx (stx : SavingTx)
  | getSavingTx (user_id : Int32)
  | addGoal (g : Goal)
  | getGoals (user_id : Int32)

namespace Operation

/-- What it returns. -/
abbrev Result : Operation → Type
  | registerUser .. | addExpense _ | deleteExpense _ | addBudget _ | addSavingTx _ | addGoal _ =>
    Bool
  | getPasswordHash .. => Bytes × Int32 × Bytes
  | getExpenses _ => List Expense
  | getBudgets _ => List Budget
  | getSavingTx _ => List SavingTx
  | getGoals _ => List Goal

/-- Its calls of the client library. -/
def prog : (o : Operation) → Op o.Result
  | registerUser email display_name password_hash =>
    DbManager.registerUser email display_name password_hash
  | getPasswordHash email user_id display_name =>
    DbManager.getPasswordHash email user_id display_name
  | addExpense exp => DbManager.addExpense exp
  | getExpenses user_id => DbManager.getExpenses user_id
  | deleteExpense id => DbManager.deleteExpense id
  | addBudget b => DbManager.addBudget b
  | getBudgets user_id => DbManager.getBudgets user_id
  | addSavingTx stx => DbManager.addSavingTx stx
  | getSavingTx user_id => DbManager.getSavingTx user_id
  | addGoal g => DbManager.addGoal g
  | getGoals user_id => DbManager.getGoals user_id

end Operation

variable (ms : MySql)

section Transactions

variable {q : Stmt}

theorem transaction_execute (hq : stores q = true) : (execute q).Transaction (exec ms) := by
  refine ⟨q, _, rfl, ⟨.ok false, rfl⟩, ?_⟩
  intro db db' rs he
  rw [exec_stores hq he]
  exact ⟨.ok true, rfl⟩

theorem transaction_fetch {α : Type} {read : Row → Except Exn α} (hq : stores q = false) :
    (fetch q read).Transaction (exec ms) := by
  refine ⟨q, _, rfl, ⟨.ok [], rfl⟩, ?_⟩
  intro db db' rs he
  obtain ⟨_, rows, rfl⟩ := exec_selects hq he
  exact ⟨rows.mapM read, _, rfl, rfl⟩

theorem transaction_getPasswordHash (email : Bytes) (user_id : Int32) (display_name : Bytes) :
    (getPasswordHash email user_id display_name).Transaction (exec ms) := by
  refine ⟨.selectUser email, _, rfl, ⟨.ok ([], user_id, display_name), rfl⟩, ?_⟩
  intro db db' rs he
  obtain ⟨_, rows, rfl⟩ := exec_selects rfl he
  cases rows with
  | nil => exact ⟨.ok ([], user_id, display_name), _, rfl, rfl⟩
  | cons row rows =>
    cases hid : stoi (col row 0) with
    | ok id =>
      refine ⟨.ok (textOr [] (col row 1), id, textOr [] (col row 2)), _, rfl, ?_⟩
      simp only [Prog.bind, hid, Prog.lift_ok, Prog.bind_eq, Prog.pure_eq]
    | error e =>
      refine ⟨.error e, _, rfl, ?_⟩
      simp only [Prog.bind, hid, Prog.lift_error, Prog.bind_eq]

/-- Every operation is a transaction. -/
theorem transaction_prog (o : Operation) : o.prog.Transaction (exec ms) := by
  cases o with
  | registerUser e n p => exact transaction_execute ms (q := .insertUser e n p) rfl
  | getPasswordHash e id n => exact transaction_getPasswordHash ms e id n
  | addExpense exp => exact transaction_execute ms (q := .insertExpense exp) rfl
  | getExpenses u => exact transaction_fetch ms (q := .selectExpenses u) rfl
  | deleteExpense id => exact transaction_execute ms (q := .deleteExpense id) rfl
  | addBudget b => exact transaction_execute ms (q := .insertBudget b) rfl
  | getBudgets u => exact transaction_fetch ms (q := .selectBudgets u) rfl
  | addSavingTx stx => exact transaction_execute ms (q := .insertSaving stx) rfl
  | getSavingTx u => exact transaction_fetch ms (q := .selectSavings u) rfl
  | addGoal g => exact transaction_execute ms (q := .insertGoal g) rfl
  | getGoals u => exact transaction_fetch ms (q := .selectGoals u) rfl

end Transactions

/-! ## Any number of workers -/

variable {ι : Type} [DecidableEq ι]

/-- The handlers before any call, on the one connection. -/
def begin (db : Db) (ops : ι → Operation) :
    Shared Db Stmt ResultSet Exn fun i => (ops i).Result :=
  ⟨.idle db, fun i => (ops i).prog⟩

/-- The handlers after the calls of a schedule. -/
def after (db : Db) (ops : ι → Operation) (schedule : List ι) :
    Shared Db Stmt ResultSet Exn fun i => (ops i).Result :=
  (sharing (exec ms)).after (begin db ops) schedule

/-- Each operation that has ended returned what it returns when the operations
run one after another in some order. -/
def InSomeOrder (db : Db) (ops : ι → Operation) (schedule : List ι) : Prop :=
  Serialisable (exec ms) (fun i => (ops i).prog) db schedule (after ms db ops schedule)

/-- No `mysql_query` of the run is issued while a result set is still to be
fetched. -/
def InStep (db : Db) (ops : ι → Operation) (schedule : List ι) : Prop :=
  (sharing (exec ms)).Along NoClash (begin db ops) schedule

/-- **Serialisability on the shared connection.** -/
theorem workers_serialisable (db : Db) (ops : ι → Operation) (schedule : List ι)
    (h : InStep ms db ops schedule) : InSomeOrder ms db ops schedule :=
  serialisable_of_noClash (fun i => transaction_prog ms (ops i)) h

/-- What an operation returns when its query fails. -/
def Operation.refused : (o : Operation) → o.Result
  | .registerUser .. | .addExpense _ | .deleteExpense _ | .addBudget _ | .addSavingTx _
  | .addGoal _ => false
  | .getPasswordHash _ user_id display_name => ([], user_id, display_name)
  | .getExpenses _ | .getBudgets _ | .getSavingTx _ | .getGoals _ => []

theorem prog_query (o : Operation) : ∃ q k, o.prog = .query q k ∧ k true = .ret o.refused := by
  cases o <;> exact ⟨_, _, rfl, rfl⟩

/-- A query issued while a result set is still to be fetched: whatever the
operation asks for, it is refused. -/
theorem clash_refused {ops : ι → Operation}
    {s : Shared Db Stmt ResultSet Exn fun i => (ops i).Result} {i : ι} {rows : ResultSet}
    (hi : s.progs i = (ops i).prog) (hp : s.conn.pending = some rows) :
    ((sharing (exec ms)).next s i).progs i = .ret (ops i).refused ∧
      ((sharing (exec ms)).next s i).conn = s.conn := by
  obtain ⟨q, k, hprog, hk⟩ := prog_query (ops i)
  have hquery : s.conn.query (exec ms) .none q = (true, s.conn) := by
    simp [Conn.query, hp]
  have hcall : (s.progs i).call (exec ms) s.conn = (.ret (ops i).refused, s.conn) := by
    simp only [hi, hprog, Prog.call, hquery, hk]
  refine ⟨?_, congrArg Prod.snd hcall⟩
  exact (Function.update_self _ _ _).trans (congrArg Prod.fst hcall)

/-! ## A login beside a list -/

/-- One user, `ann`. -/
def annDb : Db where
  users :=
    ⟨[(1, ⟨some (ascii "ann"), some (ascii "ann@home"), ascii "salt:hash"⟩)], 2, by decide, by decide⟩
  Categories := []
  Expenses := .empty
  Budgets := .empty
  Savings := .empty
  Goals := .empty

/-- Ann's list is fetched by one worker while another logs her in. -/
def listAndLogin : Bool → Operation
  | false => .getExpenses 1
  | true => .getPasswordHash (ascii "ann@home") (-1) []

/-- Either call after call of one operation, then of the other: both orders of
the operations fit. -/
theorem workers_serialisable_ann :
    InStep .plain annDb listAndLogin [false, false, true, true] ∧
      InSomeOrder .plain annDb listAndLogin [false, false, true, true] := by
  have hstep : InStep .plain annDb listAndLogin [false, false, true, true] := by
    refine ⟨fun _ => rfl, fun h => ?_, fun _ => rfl, fun h => ?_, trivial⟩ <;> cases h
  exact ⟨hstep, workers_serialisable .plain annDb listAndLogin _ hstep⟩

/-- Alone, or before or after the list, the login finds its user. -/
theorem run_login : (listAndLogin true).prog.run (exec .plain) .none (.idle annDb) =
    (.ok (ascii "salt:hash", 1, ascii "ann"), .idle annDb) := rfl

theorem run_list : (listAndLogin false).prog.run (exec .plain) .none (.idle annDb) =
    (.ok [], .idle annDb) := rfl

/-- The login's query between the query and the fetch of the list finds no
hash, which is answered 401. -/
theorem workers_login_refused :
    (after .plain annDb listAndLogin [false, true, false]).progs true = .ret ([], -1, []) ∧
      ¬ InSomeOrder .plain annDb listAndLogin [false, true, false] := by
  have hrefused :
      (after .plain annDb listAndLogin [false, true, false]).progs true = .ret ([], -1, []) := rfl
  refine ⟨hrefused, ?_⟩
  intro ⟨order, _, _, h⟩
  have hmem := h true (.ok ([], -1, [])) hrefused
  have hsteady : ∀ i, ((listAndLogin i).prog.run (exec .plain) .none (.idle annDb)).2 =
      .idle annDb := by
    intro i
    cases i with
    | false => rw [run_list]
    | true => rw [run_login]
  rw [serial_steady _ _ hsteady] at hmem
  obtain ⟨i, -, hi⟩ := List.mem_map.mp hmem
  cases i with
  | false => cases hi
  | true =>
    rw [run_login] at hi
    cases hi

end ExpenseTracker.L4.Workers
