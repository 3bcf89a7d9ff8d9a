import ExpenseTracker.L3Server.Program
import ExpenseTracker.L4Service.Tokens

/-!
# Whose rows

Per-user isolation over whole runs. The acting user of a request is whatever
integer `auth` returns for it; the rows of a user are the rows of the four
tables that carry the user's id.

* `rowsOf_exec`: a statement leaves alone the rows of every user it does not
  name, except that a deletion names no user.
* `listed_rowsOf`: what a GET lists is a function of its user's rows.
* `isolation`: a run is isolated exactly when each of its deletions hits the
  acting user's own row or none, and nobody ends the process for others.
-/
namespace ExpenseTracker.L4.Isolation

open ExpenseTracker.Core ExpenseTracker.L1.Jwt ExpenseTracker.L1.Password
open ExpenseTracker.L2.Schema ExpenseTracker.L2.Statement ExpenseTracker.L2.Server
open ExpenseTracker.L3.Json ExpenseTracker.L3.DbManager ExpenseTracker.L3.Routes
open ExpenseTracker.L3.Serve ExpenseTracker.L3.Program ExpenseTracker.L4.Gate ExpenseTracker.L4.Tokens

/-! ## The rows of a user -/

/-- The part of the database that belongs to one user. -/
structure Rows where
  Expenses : List (Int32 × ExpenseRow)
  Budgets : List (Int32 × BudgetRow)
  Savings : List (Int32 × SavingRow)
  Goals : List (Int32 × GoalRow)

/-- The rows with `user_id = v`. -/
def rowsOf (v : Int32) (db : Db) : Rows where
  Expenses := db.Expenses.select fun r => r.user_id == v
  Budgets := db.Budgets.select fun r => r.user_id == some v
  Savings := db.Savings.select fun r => r.user_id == some v
  Goals := db.Goals.select fun r => r.user_id == some v

theorem mem_rowsOf_Expenses {v : Int32} {db : Db} {r : Int32 × ExpenseRow} :
    r ∈ (rowsOf v db).Expenses ↔ r ∈ db.Expenses.rows ∧ r.2.user_id = v := by
  simp [rowsOf, Table.mem_select]

/-- The user whose row a statement inserts. -/
def owner : Stmt → Option Int32
  | .insertExpense exp => some exp.user_id
  | .insertBudget b => some b.user_id
  | .insertSaving stx => some stx.user_id
  | .insertGoal g => some g.user_id
  | _ => none

/-- A deletion that would take one of the user's rows. -/
def Deletes (v : Int32) (db : Db) (q : Stmt) : Prop :=
  ∃ id, q = .deleteExpense id ∧ ∃ r ∈ db.Expenses.rows, r.1 = id ∧ r.2.user_id = v

theorem rowsOf_exec {ms : MySql} {db db' : Db} {q : Stmt} {rs : Option ResultSet} {v : Int32}
    (h : exec ms db q = some (db', rs)) (ho : owner q ≠ some v) (hd : ¬ Deletes v db q) :
    rowsOf v db' = rowsOf v db := by
  cases q with
  | insertUser e n p =>
    obtain ⟨r, users, _, _, _, rfl, _⟩ := exec_insertUser h
    rfl
  | selectUser e =>
    obtain ⟨rfl, _⟩ := exec_selectUser h
    rfl
  | insertExpense exp =>
    obtain ⟨r, t, hr, _, ht, rfl, _⟩ := exec_insertExpense h
    have hne : (r.user_id == v) = false := by
      rw [user_id_expenseRow hr]
      simpa [owner] using ho
    simp only [rowsOf, Table.select_insert_of_not (p := fun r => r.user_id == v) ht hne]
  | deleteExpense id =>
    rw [exec_deleteExpense] at h
    cases h
    have hne : ∀ r ∈ db.Expenses.rows, r.1 = id → (r.2.user_id == v) = false := by
      intro r hr hid
      have hv : r.2.user_id ≠ v := fun hv => hd ⟨id, rfl, r, hr, hid, hv⟩
      simpa using hv
    have hs : (db.Expenses.delete id).select (fun r => r.user_id == v) =
        db.Expenses.select fun r => r.user_id == v := Table.select_delete_of_not hne
    simp only [rowsOf, hs]
  | insertBudget b =>
    obtain ⟨r, t, hr, ht, rfl, _⟩ := exec_insertBudget h
    have hne : (r.user_id == some v) = false := by
      rw [user_id_budgetRow hr]
      simpa [owner] using ho
    simp only [rowsOf, Table.select_insert_of_not (p := fun r => r.user_id == some v) ht hne]
  | insertSaving stx =>
    obtain ⟨r, t, hr, ht, rfl, _⟩ := exec_insertSaving h
    have hne : (r.user_id == some v) = false := by
      rw [user_id_savingRow hr]
      simpa [owner] using ho
    simp only [rowsOf, Table.select_insert_of_not (p := fun r => r.user_id == some v) ht hne]
  | insertGoal g =>
    obtain ⟨r, t, hr, ht, rfl, _⟩ := exec_insertGoal h
    have hne : (r.user_id == some v) = false := by
      rw [user_id_goalRow hr]
      simpa [owner] using ho
    simp only [rowsOf, Table.select_insert_of_not (p := fun r => r.user_id == some v) ht hne]
  | selectExpenses u => rw [exec_selectExpenses] at h; cases h; rfl
  | selectBudgets u => rw [exec_selectBudgets] at h; cases h; rfl
  | selectSavings u => rw [exec_selectSavings] at h; cases h; rfl
  | selectGoals u => rw [exec_selectGoals] at h; cases h; rfl

/-- A list is a function of its user's rows. -/
theorem listed_rowsOf {db db' : Db} {v : Int32} (h : rowsOf v db' = rowsOf v db) (c : Collection) :
    listed db' v c = listed db v c := by
  simp only [rowsOf, Rows.mk.injEq] at h
  obtain ⟨he, hb, hs, hg⟩ := h
  cases c with
  | Expenses => simp only [listed, he]
  | Budgets => simp only [listed, hb]
  | Savings => simp only [listed, hs]
  | Goals => simp only [listed, hg]

/-- An entry of a list that stands for a row with `user_id = v`. -/
def Shows (db : Db) (v : Int32) (w : WValue) : Collection → Prop
  | .Expenses => ∃ r ∈ db.Expenses.rows, r.2.user_id = v ∧
      ∃ e, readExpense (expenseCells r) = .ok e ∧ w = expenseJson e
  | .Budgets => ∃ r ∈ db.Budgets.rows, r.2.user_id = some v ∧
      ∃ b, readBudget (budgetCells r) = .ok b ∧ w = budgetJson b
  | .Savings => ∃ r ∈ db.Savings.rows, r.2.user_id = some v ∧
      ∃ s, readSavingTx (savingCells r) = .ok s ∧ w = savingJson s
  | .Goals => ∃ r ∈ db.Goals.rows, r.2.user_id = some v ∧
      ∃ g, readGoal (goalCells r) = .ok g ∧ w = goalJson g

theorem shows_of_mapM {ρ α : Type} {t : Table ρ} {p : ρ → Bool} {cells : Int32 × ρ → Row}
    {read : Row → Except Exn α} {json : α → WValue} {l : List WValue}
    (h : (((t.select p).map cells).mapM read).map (List.map json) = .ok l) {w : WValue}
    (hw : w ∈ l) : ∃ r ∈ t.rows, p r.2 = true ∧ ∃ a, read (cells r) = .ok a ∧ w = json a := by
  cases hm : ((t.select p).map cells).mapM read with
  | error e => rw [hm] at h; cases h
  | ok as =>
    rw [hm] at h
    cases h
    obtain ⟨a, ha, rfl⟩ := List.mem_map.mp hw
    obtain ⟨row, hrow, hread⟩ := mem_of_mapM hm ha
    obtain ⟨r, hr, rfl⟩ := List.mem_map.mp hrow
    obtain ⟨hr, hp⟩ := Table.mem_select.mp hr
    exact ⟨r, hr, hp, a, hread, rfl⟩

theorem shows_of_listed {db : Db} {v : Int32} {c : Collection} {l : List WValue}
    (h : listed db v c = .ok l) {w : WValue} (hw : w ∈ l) : Shows db v w c := by
  cases c with
  | Expenses =>
    obtain ⟨r, hr, hp, a, hread, he⟩ := shows_of_mapM h hw
    exact ⟨r, hr, beq_iff_eq.mp hp, a, hread, he⟩
  | Budgets =>
    obtain ⟨r, hr, hp, a, hread, he⟩ := shows_of_mapM h hw
    exact ⟨r, hr, beq_iff_eq.mp hp, a, hread, he⟩
  | Savings =>
    obtain ⟨r, hr, hp, a, hread, he⟩ := shows_of_mapM h hw
    exact ⟨r, hr, beq_iff_eq.mp hp, a, hread, he⟩
  | Goals =>
    obtain ⟨r, hr, hp, a, hread, he⟩ := shows_of_mapM h hw
    exact ⟨r, hr, beq_iff_eq.mp hp, a, hread, he⟩

/-! ## One request -/

/-- A request to a protected route with acting user `v`. -/
def ActsAs (auth : Request → Int32) (v : Int32) (call : Call) : Prop :=
  call.route.protected = true ∧ auth call.req = v

/-- A deletion that is carried out hits a row of the acting user or no row. -/
def OwnDelete (auth : Request → Int32) (c : Conn Db ResultSet) (call : Call) : Prop :=
  ∀ id, call.route = .deleteExpense id → auth call.req ≠ -1 → call.fault.query = false →
    ∀ r ∈ c.db.Expenses.rows, r.1 = id → r.2.user_id = auth call.req

section Step

variable {C : Crypto} {auth : Request → Int32} {ms : MySql} {db : Db} {call : Call}

theorem user_id_readExpenseBody {u : Int32} {x : RValue} {exp : Expense}
    (h : readExpenseBody u x = .ok exp) : exp.user_id = u := by
  simp only [readExpenseBody, bind_eq_ok] at h
  obtain ⟨_, _, _, _, _, _, _, _, _, _, h⟩ := h
  cases h
  rfl

theorem user_id_readBudgetBody {u : Int32} {x : RValue} {b : Budget}
    (h : readBudgetBody u x = .ok b) : b.user_id = u := by
  simp only [readBudgetBody, bind_eq_ok] at h
  obtain ⟨_, _, _, _, h⟩ := h
  cases h
  rfl

theorem user_id_readSavingBody {u : Int32} {x : RValue} {stx : SavingTx}
    (h : readSavingBody u x = .ok stx) : stx.user_id = u := by
  simp only [readSavingBody, bind_eq_ok] at h
  obtain ⟨_, _, _, _, _, _, h⟩ := h
  cases h
  rfl

theorem user_id_readGoalBody {u : Int32} {x : RValue} {g : Goal}
    (h : readGoalBody u x = .ok g) : g.user_id = u := by
  simp only [readGoalBody, bind_eq_ok] at h
  obtain ⟨_, _, _, _, _, _, _, _, _, _, h⟩ := h
  cases h
  rfl

/-- The statement of a POST route holds the record read for the acting user. -/
theorem postStmt_eq_some {α : Type} {read : Int32 → RValue → Except Exn α} {q : α → Stmt}
    {req : Request} {s : Stmt} (h : postStmt auth read q req = some s) :
    ∃ x r, auth req ≠ -1 ∧ req.body = some x ∧ read (auth req) x = .ok r ∧ s = q r := by
  unfold postStmt at h
  split at h
  · cases h
  rename_i ha
  cases hb : req.body with
  | none => rw [hb] at h; cases h
  | some x =>
    rw [hb] at h
    cases hr : read (auth req) x with
    | error e => simp only [hr] at h; cases h
    | ok r =>
      simp only [hr] at h
      cases h
      exact ⟨x, r, ha, rfl, hr, rfl⟩

/-- A record is inserted for the acting user. -/
theorem storing_owner {q : Stmt} (h : storing C auth call = some q) {u : Int32}
    (ho : owner q = some u) : ActsAs auth u call := by
  obtain ⟨route, req, f⟩ := call
  cases route with
  | register salt =>
    simp only [storing, registerStmt] at h
    split at h
    · cases h
    split at h <;> cases h
    cases ho
  | postExpenses =>
    obtain ⟨x, r, _, _, hr, rfl⟩ := postStmt_eq_some h
    cases ho
    exact ⟨rfl, (user_id_readExpenseBody hr).symm⟩
  | deleteExpense id =>
    simp only [storing] at h
    split at h <;> cases h
    cases ho
  | postBudgets =>
    obtain ⟨x, r, _, _, hr, rfl⟩ := postStmt_eq_some h
    cases ho
    exact ⟨rfl, (user_id_readBudgetBody hr).symm⟩
  | postSavings =>
    obtain ⟨x, r, _, _, hr, rfl⟩ := postStmt_eq_some h
    cases ho
    exact ⟨rfl, (user_id_readSavingBody hr).symm⟩
  | postGoals =>
    obtain ⟨x, r, _, _, hr, rfl⟩ := postStmt_eq_some h
    cases ho
    exact ⟨rfl, (user_id_readGoalBody hr).symm⟩
  | _ => cases h

theorem storing_delete {id : Int32} (h : storing C auth call = some (.deleteExpense id)) :
    call.route = .deleteExpense id ∧ auth call.req ≠ -1 := by
  obtain ⟨route, req, f⟩ := call
  cases route with
  | register salt =>
    simp only [storing, registerStmt] at h
    split at h
    · cases h
    split at h <;> cases h
  | deleteExpense id' =>
    simp only [storing] at h
    split at h
    · cases h
    rename_i ha
    cases h
    exact ⟨rfl, ha⟩
  | postExpenses => obtain ⟨_, _, _, _, _, hs⟩ := postStmt_eq_some h; cases hs
  | postBudgets => obtain ⟨_, _, _, _, _, hs⟩ := postStmt_eq_some h; cases hs
  | postSavings => obtain ⟨_, _, _, _, _, hs⟩ := postStmt_eq_some h; cases hs
  | postGoals => obtain ⟨_, _, _, _, _, hs⟩ := postStmt_eq_some h; cases hs
  | _ => cases h

/-- A request not acting as `v` leaves `v`'s rows alone, if its deletion is its own. -/
theorem rowsOf_next {c : Conn Db ResultSet} (hc : Idle c) {v : Int32} (hv : ¬ ActsAs auth v call)
    (hown : OwnDelete auth c call) :
    rowsOf v ((server C auth ms).next c call).db = rowsOf v c.db := by
  rw [hc.next]
  cases hs : storing C auth call with
  | none => rfl
  | some q =>
    cases hst : stored ms call.fault c.db q with
    | none => simp only [Option.bind_some, hst]; rfl
    | some db' =>
      simp only [Option.bind_some, hst]
      obtain ⟨hf, rs, he⟩ := stored_eq_some hst
      refine rowsOf_exec he ?_ ?_
      · intro ho
        exact hv (storing_owner hs ho)
      · intro hdel
        obtain ⟨id, rfl, r, hr, hid, huser⟩ := hdel
        obtain ⟨hroute, ha⟩ := storing_delete hs
        refine hv ⟨by rw [hroute]; rfl, ?_⟩
        rw [← hown id hroute ha hf r hr hid, huser]

/-- A deletion that is carried out. -/
theorem next_delete {c : Conn Db ResultSet} (hc : Idle c) {id : Int32}
    (hroute : call.route = .deleteExpense id) (ha : auth call.req ≠ -1)
    (hf : call.fault.query = false) : ((server C auth ms).next c call).db =
      { c.db with Expenses := c.db.Expenses.delete id } := by
  have hs : storing C auth call = some (.deleteExpense id) := by
    simp only [storing, hroute, if_neg ha]
  have hst : stored ms call.fault c.db (.deleteExpense id) =
      some { c.db with Expenses := c.db.Expenses.delete id } := by
    simp only [stored, hf, exec_deleteExpense]
    rfl
  rw [hc.next, hs, Option.bind_some, hst]
  rfl

/-- The step the source leaves open: a deletion that hits another user's row. -/
theorem ownDelete_of_rowsOf {c : Conn Db ResultSet} (hc : Idle c)
    (h : ∀ v, ¬ ActsAs auth v call →
      rowsOf v ((server C auth ms).next c call).db = rowsOf v c.db) : OwnDelete auth c call := by
  intro id hroute ha hf r hr hid
  by_contra hne
  have hv := h r.2.user_id fun hact => hne hact.2.symm
  rw [next_delete hc hroute ha hf] at hv
  -- the row is there before the request and gone after it
  have hmem : r ∈ (rowsOf r.2.user_id c.db).Expenses := mem_rowsOf_Expenses.mpr ⟨hr, rfl⟩
  rw [← hv] at hmem
  exact (Table.mem_delete.mp (mem_rowsOf_Expenses.mp hmem).1).2 hid

/-- Two states with the same rows of `v` answer `v`'s GET alike. -/
theorem out_get {c c' : Conn Db ResultSet} (hc : Idle c) (hc' : Idle c') {v : Int32}
    {k : Collection} (hroute : call.route = k.getRoute) (hact : ActsAs auth v call)
    (h : rowsOf v c'.db = rowsOf v c.db) :
    (server C auth ms).out c' call = (server C auth ms).out c call := by
  rw [hc.out, hc'.out]
  by_cases ha : auth call.req = -1
  · rw [serve_unauthorized hact.1 ha, serve_unauthorized hact.1 ha]
  · rw [serve_get hroute ha, serve_get hroute ha, hact.2, listed_rowsOf h]

end Step

/-! ## Runs -/

section Runs

variable (C : Crypto) (auth : Request → Int32) (ms : MySql) (p : Process) (calls : List Call)

/-- No request touches the rows of a user it does not act as. -/
def Untouched : Prop :=
  (program C auth (exec ms)).Along (fun p call => ∀ v, ¬ ActsAs auth v call →
    rowsOf v ((program C auth (exec ms)).next p call).conn.db = rowsOf v p.conn.db) p calls

/-- Every GET lists rows of its acting user only. -/
def OwnLists : Prop :=
  (program C auth (exec ms)).Along (fun p call => ∀ v k, ActsAs auth v call →
    call.route = k.getRoute → ∀ r ∈ (program C auth (exec ms)).out p call,
      ∀ w ∈ r.body.entries, Shows p.conn.db v w k) p calls

/-- Other users' requests do not show in a user's next GET. -/
def Steady : Prop :=
  ∀ xs ys zs, calls = xs ++ ys ++ zs → ∀ v, (∀ y ∈ ys, ¬ ActsAs auth v y) →
    ∀ g k, g.route = Collection.getRoute k → ActsAs auth v g →
      (program C auth (exec ms)).out ((program C auth (exec ms)).after p (xs ++ ys)) g =
        (program C auth (exec ms)).out ((program C auth (exec ms)).after p xs) g

/-- Per-user isolation of a run. -/
def Isolated : Prop := Untouched C auth ms p calls ∧ OwnLists C auth ms p calls ∧
  Steady C auth ms p calls

/-- While the process is up, a deletion that is carried out is the acting user's own, and a
request ends the process only where no request acts as anybody else. -/
def Contained : Prop := (program C auth (exec ms)).Along (fun p call => p.up = true →
  OwnDelete auth p.conn call ∧ (Ends auth call → ∀ req, auth req = auth call.req)) p calls

variable {C auth ms p calls}

/-- What a request does to the process. -/
theorem next_cases (C : Crypto) (auth : Request → Int32) (ms : MySql) (p : Process) (call : Call) :
    (p.up = false ∧ (program C auth (exec ms)).step p call = (none, p)) ∨
    (p.up = true ∧ Ends auth call ∧ (program C auth (exec ms)).step p call = (none, ⟨false, p.conn⟩)) ∨
    (p.up = true ∧ ¬ Ends auth call ∧ (program C auth (exec ms)).step p call =
      (some ((server C auth ms).out p.conn call), ⟨true, (server C auth ms).next p.conn call⟩)) := by
  obtain ⟨up, c⟩ := p
  cases up with
  | false => exact Or.inl ⟨rfl, program_down rfl⟩
  | true =>
    by_cases hends : Ends auth call
    · exact Or.inr (Or.inl ⟨rfl, hends, program_ends rfl hends⟩)
    · exact Or.inr (Or.inr ⟨rfl, hends, program_step (orderly_exec hends) c⟩)

/-- Between two requests there is nothing to fetch. -/
theorem program_idle : (program C auth (exec ms)).Inductive fun p => Idle p.conn := by
  intro p call hp
  rw [Machine.next]
  rcases next_cases C auth ms p call with ⟨_, h⟩ | ⟨_, _, h⟩ | ⟨_, _, h⟩
  · rw [h]; exact hp
  · rw [h]; exact hp
  · rw [h]; exact server_idle p.conn call hp

/-- One request: only a deletion of another user's row touches it. -/
theorem untouched_step (C : Crypto) (ms : MySql) {p : Process} {call : Call} (hp : Idle p.conn) :
    (∀ v, ¬ ActsAs auth v call →
      rowsOf v ((program C auth (exec ms)).next p call).conn.db = rowsOf v p.conn.db) ↔
    (p.up = true → OwnDelete auth p.conn call) := by
  rw [Machine.next]
  rcases next_cases C auth ms p call with ⟨hup, h⟩ | ⟨hup, hends, h⟩ | ⟨hup, _, h⟩
  · rw [h, hup]
    exact iff_of_true (fun _ _ => rfl) fun h => by cases h
  · -- a POST deletes nothing
    rw [h]
    refine iff_of_true (fun _ _ => rfl) fun _ id hroute => ?_
    rw [hends.1] at hroute
    cases hroute
  · rw [h]
    exact ⟨fun h _ => ownDelete_of_rowsOf hp h, fun hown v hv => rowsOf_next hp hv (hown hup)⟩

theorem untouched_iff (hp : Idle p.conn) : Untouched C auth ms p calls ↔
    (program C auth (exec ms)).Along (fun p call => p.up = true → OwnDelete auth p.conn call) p calls :=
  program_idle.along_congr (fun _ _ hp => untouched_step C ms hp) hp calls

theorem ownLists (hp : Idle p.conn) : OwnLists C auth ms p calls := by
  unfold OwnLists
  rw [Machine.along_iff]
  intro xs call ys _ v k hact hroute r hr w hw
  have hidle : Idle ((program C auth (exec ms)).after p xs).conn := program_idle.after hp xs
  rw [Machine.out] at hr
  rcases next_cases C auth ms ((program C auth (exec ms)).after p xs) call with
    ⟨_, h⟩ | ⟨_, _, h⟩ | ⟨_, _, h⟩
  · rw [h] at hr
    cases hr
  · rw [h] at hr
    cases hr
  rw [h] at hr
  cases hr
  rw [hidle.out] at hw
  by_cases ha : auth call.req = -1
  · rw [serve_unauthorized hact.1 ha] at hw
    cases hw
  rw [serve_get hroute ha] at hw
  split at hw
  · cases hw
  · cases hl : listed ((program C auth (exec ms)).after p xs).conn.db (auth call.req) k with
    | error e => rw [hl] at hw; cases hw
    | ok l =>
      rw [hl, listing, entries_ofList] at hw
      exact hact.2 ▸ shows_of_listed hl hw

/-- What other users' requests leave of a user's rows, and of the process, over any stretch
of a run. -/
theorem rowsOf_after (hp : Idle p.conn) (hup : p.up = true) (hown : Contained C auth ms p calls)
    {v : Int32} {req : Request} (hreq : auth req = v) (hv : ∀ y ∈ calls, ¬ ActsAs auth v y) :
    ((program C auth (exec ms)).after p calls).up = true ∧
      rowsOf v ((program C auth (exec ms)).after p calls).conn.db = rowsOf v p.conn.db := by
  induction calls generalizing p with
  | nil => exact ⟨hup, rfl⟩
  | cons call calls ih =>
    obtain ⟨hcall, hrest⟩ := hown
    obtain ⟨hdel, halone⟩ := hcall hup
    have hcallv : ¬ ActsAs auth v call := hv call List.mem_cons_self
    -- a request that ends the process acts as the only user there is
    have hends : ¬ Ends auth call := fun h =>
      hcallv ⟨by rw [h.1]; rfl, (halone h req).symm.trans hreq⟩
    have hstep : (program C auth (exec ms)).step p call = _ :=
      ((next_cases C auth ms p call).resolve_left fun h => by simp [hup] at h).resolve_left
        (fun h => hends h.2.1) |>.2.2
    have hnext : (program C auth (exec ms)).next p call =
        ⟨true, (server C auth ms).next p.conn call⟩ := congrArg Prod.snd hstep
    have hrows := (untouched_step C ms hp).mpr (fun _ => hdel) v hcallv
    rw [hnext] at hrest hrows
    obtain ⟨hup', hafter⟩ := ih (server_idle p.conn call hp) rfl hrest
      fun y hy => hv y (List.mem_cons_of_mem _ hy)
    rw [Machine.after_cons, hnext]
    exact ⟨hup', hafter.trans hrows⟩

/-- A GET of a process that is up. -/
theorem out_up {p : Process} (hup : p.up = true) {g : Call} {k : Collection}
    (hroute : g.route = k.getRoute) :
    (program C auth (exec ms)).out p g = some ((server C auth ms).out p.conn g) := by
  have hends : ¬ Ends auth g := by
    intro h
    rw [h.1] at hroute
    cases k <;> cases hroute
  obtain ⟨up, c⟩ := p
  cases hup
  exact program_out (orderly_exec hends) c

theorem after_down (hdown : p.up = false) : (program C auth (exec ms)).after p calls = p := by
  induction calls with
  | nil => rfl
  | cons call calls ih =>
    rw [Machine.after_cons, Machine.next, program_down hdown]
    exact ih

theorem steady (hp : Idle p.conn) (hown : Contained C auth ms p calls) : Steady C auth ms p calls := by
  intro xs ys zs hsplit v hv g k hroute hact
  subst hsplit
  unfold Contained at hown
  rw [Machine.along_append, Machine.along_append] at hown
  have hx : Idle ((program C auth (exec ms)).after p xs).conn := program_idle.after hp xs
  rw [Machine.after_append]
  cases hup : ((program C auth (exec ms)).after p xs).up with
  | false => rw [after_down hup]
  | true =>
    obtain ⟨hup', hrows⟩ := rowsOf_after hx hup hown.1.2 hact.2 hv
    rw [out_up hup hroute, out_up hup' hroute]
    exact congrArg some (out_get hx (program_idle.after hx ys) hroute hact hrows)

/-- The one who ends the process is alone. -/
theorem alone_of_steady (h : Steady C auth ms p calls) {xs ys : List Call} {call : Call}
    (hsplit : calls = xs ++ call :: ys) (hup : ((program C auth (exec ms)).after p xs).up = true)
    (hends : Ends auth call) (req : Request) : auth req = auth call.req := by
  by_contra hne
  have hg := h xs [call] ys (by simp [hsplit]) (auth req)
    (fun y hy hact => hne ((List.mem_singleton.mp hy ▸ hact).2).symm)
    ⟨.getExpenses, req, .none⟩ .Expenses rfl ⟨rfl, rfl⟩
  rw [Machine.after_snoc, Machine.next, program_ends hup hends, out_up hup (k := .Expenses) rfl,
    Machine.out, program_down rfl] at hg
  cases hg

end Runs

/-- **Per-user isolation.** Every protected route keeps to the acting user's rows but the
DELETE, which takes any user's row by its id; and one body ends the process for everyone. -/
theorem isolation (C : Crypto) (auth : Request → Int32) (ms : MySql) (db : Db) (calls : List Call) :
    Isolated C auth ms (.start db) calls ↔ Contained C auth ms (.start db) calls := by
  have hidle : Idle (Process.start db).conn := idle_idle db
  refine ⟨?_, ?_⟩
  · intro ⟨huntouched, _, hsteady⟩
    have hown := (Machine.along_iff _ _ _ _).mp ((untouched_iff hidle).mp huntouched)
    refine (Machine.along_iff _ _ _ _).mpr fun xs call ys hsplit hup => ⟨hown xs call ys hsplit hup, ?_⟩
    exact fun hends => alone_of_steady hsteady hsplit hup hends
  · intro h
    refine ⟨(untouched_iff hidle).mpr ?_, ownLists hidle, steady hidle h⟩
    exact Machine.Along.imp (fun _ _ hcall hup => (hcall hup).1) h

/-! ## A deletion across users -/

/-- Acting users told by the header itself. -/
def named (req : Request) : Int32 :=
  if authorization req = some (ascii "Bearer 1") then 1
  else if authorization req = some (ascii "Bearer 2") then 2
  else -1

/-- An expense of amount 0 in category 1. -/
def lunch : RValue := .object
  [(ascii "category_id", .number ⟨false, 1, 0, 0, 0⟩), (ascii "amount", .number ⟨false, 0, 0, 0, 0⟩),
    (ascii "description", jsonString "lunch"), (ascii "expense_date", jsonString "2024-05-01")]

/-- Ann and Bob register, Bob (user 2) posts an expense, Ann (user 1) deletes it. -/
def acrossUsers : List Call :=
  [annRegister, bobRegister, ⟨.postExpenses, bearer (ascii "2") (some lunch), .none⟩,
    ⟨.deleteExpense 1, bearer (ascii "1") none, .none⟩]

/-- A database from before the migrations, with one expense of user 2. -/
def legacy : Db where
  __ := Db.migrated
  Expenses := ⟨[(1, ⟨2, some 1, 1250, some (ascii "lunch"), ascii "2024-05-01", none⟩)], 2, by decide,
    by decide⟩

/-- One user deletes another's expense: with acting users told apart, and with
the program's own `authenticate` on the older database. And one whose body is a list
leaves the other without an answer. -/
theorem isolation_acrossUsers :
    ¬ Isolated Crypto.zero named MySql.plain (.start Db.migrated) acrossUsers ∧
      ¬ Isolated Crypto.zero (authenticate Crypto.zero) MySql.plain (.start legacy)
        [⟨.deleteExpense 1, bearer annToken none, .none⟩] ∧
      ¬ Isolated Crypto.zero named MySql.plain (.start Db.migrated)
        [⟨.postExpenses, bearer (ascii "1") (some (.list [.null])), .none⟩] := by
  refine ⟨?_, ?_, ?_⟩
  · intro h
    obtain ⟨_, _, _, hdel, _⟩ := (untouched_iff (idle_idle _)).mp h.1
    have hall := hdel (by decide +kernel) 1 rfl (by decide) rfl
    revert hall
    decide +kernel
  · intro h
    obtain ⟨hdel, _⟩ := (untouched_iff (idle_idle _)).mp h.1
    have ha : authenticate Crypto.zero (bearer annToken none) = 1 := by
      rw [authenticate_bearer (t := annToken) Crypto.zero rfl, annToken, verifyJWT_generateJWT]
    have hown := hdel rfl 1 rfl (by rw [ha]; decide) rfl _ List.mem_cons_self rfl
    rw [ha] at hown
    exact absurd hown (by decide)
  · intro h
    have hsplit : [Call.mk .postExpenses (bearer (ascii "1") (some (.list [.null]))) .none] =
        [] ++ _ :: [] := rfl
    have halone := alone_of_steady h.2.2 hsplit rfl ⟨rfl, by decide, _, _, rfl⟩
      (bearer (ascii "2") none)
    revert halone
    decide

end ExpenseTracker.L4.Isolation
