import ExpenseTracker.L3Server.Routes

/-!
# What a request does

One lemma for each kind of request, from which the results about runs take
all they need: a request that stores carries out one statement (`storing`) or
changes nothing, a GET answers what `listed` reads and changes nothing, and
every answer leaves the connection idle.

* `serve_storing`, `serve_unstored`: the requests that can store.
* `serve_get`: the four GET routes.
* `serve_login`: a login, by the row it reads.
* `serve_conn`, `server_idle`: the connection after any request.
* `issued_writes`: the statements a request sends.
* `served_iff`: which requests to a protected route are not answered 401.
-/
namespace ExpenseTracker.L3.Serve

open ExpenseTracker.Core ExpenseTracker.L1.Jwt ExpenseTracker.L1.Password
open ExpenseTracker.L2.Schema ExpenseTracker.L2.Statement ExpenseTracker.L2.Server
open ExpenseTracker.L3.Json ExpenseTracker.L3.DbManager ExpenseTracker.L3.Routes

/-! ## Requests that store -/

section Storing

variable (C : Crypto) (auth : Request → Int32) (ms : MySql)

/-- The statement of a POST route, when the request gets that far. -/
def postStmt {α : Type} (read : Int32 → RValue → Except Exn α) (q : α → Stmt) (req : Request) :
    Option Stmt :=
  if auth req = -1 then none
  else
    match req.body with
    | none => none
    | some x =>
      match read (auth req) x with
      | .ok r => some (q r)
      | .error _ => none

def registerStmt (salt : Salt) (req : Request) : Option Stmt :=
  match req.body with
  | none => none
  | some x =>
    match readRegisterBody x with
    | .ok (email, display_name, password) =>
      some (.insertUser email display_name (hashPassword C salt password))
    | .error _ => none

/-- The statement a request stores with. -/
def storing (call : Call) : Option Stmt :=
  match call.route with
  | .register salt => registerStmt C salt call.req
  | .postExpenses => postStmt auth readExpenseBody .insertExpense call.req
  | .deleteExpense id => if auth call.req = -1 then none else some (.deleteExpense id)
  | .postBudgets => postStmt auth readBudgetBody .insertBudget call.req
  | .postSavings => postStmt auth readSavingBody .insertSaving call.req
  | .postGoals => postStmt auth readGoalBody .insertGoal call.req
  | .login _ | .getExpenses | .getBudgets | .getSavings | .getGoals => none

/-- The database after a statement, `none` when it fails. -/
def stored (f : Fault) (db : Db) (q : Stmt) : Option Db :=
  if f.query then none else (exec ms db q).map Prod.fst

/-- The code of a request that stored. -/
def okCode : Route → ℕ
  | .deleteExpense _ => 200
  | _ => 201

/-- The code of a request whose statement failed. -/
def failCode : Route → ℕ
  | .register _ => 400
  | _ => 500

variable {C auth ms} {f : Fault} {db : Db}

theorem stored_eq_some {q : Stmt} {db' : Db} (h : stored ms f db q = some db') :
    f.query = false ∧ ∃ rs, exec ms db q = some (db', rs) := by
  unfold stored at h
  split at h
  · cases h
  rename_i hf
  obtain ⟨⟨d, rs⟩, he, rfl⟩ := Option.map_eq_some_iff.mp h
  exact ⟨by simpa using hf, rs, he⟩

theorem run_execute_stores {q : Stmt} (hq : stores q = true) :
    (execute q).run (exec ms) f (.idle db) =
      match stored ms f db q with
      | none => (.ok false, .idle db)
      | some db' => (.ok true, .idle db') := by
  rw [run_execute, stored]
  split
  · rfl
  · cases he : exec ms db q with
    | none => rfl
    | some r =>
      obtain ⟨db', rs⟩ := r
      cases exec_stores hq he
      rfl

/-- `if (db.op(...)) return yes; return no;` -/
theorem run_answer {q : Stmt} (hq : stores q = true) (yes no : Response) :
    ((execute q).bind fun done => if done then .ret yes else .ret no).run (exec ms) f (.idle db) =
      match stored ms f db q with
      | none => (.ok no, .idle db)
      | some db' => (.ok yes, .idle db') := by
  rw [Prog.run_bind, run_execute_stores hq]
  cases stored ms f db q <;> rfl

theorem run_post {α : Type} {req : Request} {read : Int32 → RValue → Except Exn α}
    {add : α → Op Bool} {q : α → Stmt} (hadd : ∀ r, add r = execute (q r))
    (hq : ∀ r, stores (q r) = true) (yes no : String) {s : Stmt}
    (h : postStmt auth read q req = some s) :
    (postRecord auth req read add yes no).run (exec ms) f (.idle db) =
      match stored ms f db s with
      | none => (.ok (respond 500 no), .idle db)
      | some db' => (.ok (respond 201 yes), .idle db') := by
  unfold postStmt at h
  split at h
  · cases h
  rename_i ha
  cases hb : req.body with
  | none => rw [hb] at h; cases h
  | some x =>
    rw [hb] at h
    cases hr : read (auth req) x with
    | error e => simp only [hr] at h; cases h
    | ok r =>
      simp only [hr] at h
      cases h
      simp only [postRecord, protect, if_neg ha, load, hb, hr, Prog.bind_eq, Prog.lift_ok,
        Prog.ret_bind, Prog.pure_eq, hadd]
      exact run_answer (hq r) _ _

theorem run_post_none {α : Type} {req : Request} {read : Int32 → RValue → Except Exn α}
    {add : α → Op Bool} {q : α → Stmt} (yes no : String) (h : postStmt auth read q req = none)
    {c : Conn Db ResultSet} : ∃ r, (postRecord auth req read add yes no).run (exec ms) f c = (r, c) ∧
      (answer r).code ∈ [400, 401, 500] ∧ (auth req ≠ -1 → (answer r).code ≠ 401) := by
  unfold postStmt at h
  split at h
  · rename_i ha
    exact ⟨.ok (respond 401 "Unauthorized"), by simp [postRecord, protect, ha],
      by simp [answer, respond], fun hn => absurd ha hn⟩
  rename_i ha
  cases hb : req.body with
  | none =>
    exact ⟨.ok (respond 400 "Invalid JSON"), by simp [postRecord, protect, ha, load, hb],
      by simp [answer, respond], by simp [answer, respond]⟩
  | some x =>
    rw [hb] at h
    cases hr : read (auth req) x with
    | error e =>
      exact ⟨.error e, by simp [postRecord, protect, ha, load, hb, hr], by simp [answer],
        by simp [answer]⟩
    | ok r => simp only [hr] at h; cases h

theorem run_register {salt : Salt} {req : Request} {s : Stmt}
    (h : registerStmt C salt req = some s) :
    (postRegister C salt req).run (exec ms) f (.idle db) =
      match stored ms f db s with
      | none => (.ok (respond 400 "Email might already exist"), .idle db)
      | some db' => (.ok (respond 201 "User registered"), .idle db') := by
  unfold registerStmt at h
  cases hb : req.body with
  | none => rw [hb] at h; cases h
  | some x =>
    rw [hb] at h
    cases hr : readRegisterBody x with
    | error e => simp only [hr] at h; cases h
    | ok r =>
      simp only [hr] at h
      cases h
      simp only [postRegister, load, hb, hr, Prog.bind_eq, Prog.lift_ok, Prog.ret_bind, Prog.pure_eq,
        registerUser]
      exact run_answer rfl _ _

theorem run_register_none {salt : Salt} {req : Request} (h : registerStmt C salt req = none)
    {c : Conn Db ResultSet} : ∃ r, (postRegister C salt req).run (exec ms) f c = (r, c) ∧
      (answer r).code ∈ [400, 401, 500] ∧ (auth req ≠ -1 → (answer r).code ≠ 401) := by
  unfold registerStmt at h
  cases hb : req.body with
  | none =>
    exact ⟨.ok (respond 400 "Invalid JSON"), by simp [postRegister, load, hb],
      by simp [answer, respond], by simp [answer, respond]⟩
  | some x =>
    rw [hb] at h
    cases hr : readRegisterBody x with
    | error e =>
      exact ⟨.error e, by simp [postRegister, load, hb, hr], by simp [answer], by simp [answer]⟩
    | ok r => simp only [hr] at h; cases h

theorem run_delete {id : Int32} {req : Request} (ha : auth req ≠ -1) :
    (Routes.deleteExpense auth id req).run (exec ms) f (.idle db) =
      match stored ms f db (.deleteExpense id) with
      | none => (.ok (respond 500 "Failed to delete expense"), .idle db)
      | some db' => (.ok (respond 200 "Expense deleted properly"), .idle db') := by
  simp only [Routes.deleteExpense, protect, if_neg ha, Prog.bind_eq, Prog.pure_eq,
    DbManager.deleteExpense]
  exact run_answer rfl _ _

theorem answer_run {h : Handler} {o : Option Db} {yes no : Response}
    (hrun : h.run (exec ms) f (.idle db) =
      match o with
      | none => (.ok no, .idle db)
      | some db' => (.ok yes, .idle db')) :
    ∃ r, (answer (h.run (exec ms) f (.idle db)).1, (h.run (exec ms) f (.idle db)).2) =
        (r, .idle (o.getD db)) ∧
      r.code = if o.isSome then yes.code else no.code := by
  rw [hrun]
  cases o with
  | none => exact ⟨no, rfl, rfl⟩
  | some db' => exact ⟨yes, rfl, rfl⟩

/-- **A request that stores.** Its statement is carried out and answered with
the code of success, or it fails and the database stays. -/
theorem serve_storing {call : Call} {q : Stmt} (h : storing C auth call = some q) :
    ∃ r, serve C auth ms call (.idle db) = (r, .idle ((stored ms call.fault db q).getD db)) ∧
      r.code = if (stored ms call.fault db q).isSome then okCode call.route
        else failCode call.route := by
  obtain ⟨route, req, f⟩ := call
  cases route with
  | register salt => exact answer_run (run_register h)
  | postExpenses =>
    exact answer_run (run_post (q := .insertExpense) (fun _ => rfl) (fun _ => rfl) _ _ h)
  | deleteExpense id =>
    simp only [storing] at h
    split at h
    · cases h
    rename_i ha
    cases h
    exact answer_run (run_delete ha)
  | postBudgets =>
    exact answer_run (run_post (q := .insertBudget) (fun _ => rfl) (fun _ => rfl) _ _ h)
  | postSavings =>
    exact answer_run (run_post (q := .insertSaving) (fun _ => rfl) (fun _ => rfl) _ _ h)
  | postGoals =>
    exact answer_run (run_post (q := .insertGoal) (fun _ => rfl) (fun _ => rfl) _ _ h)
  | _ => cases h

end Storing

/-! ## Requests that list -/

section Listing

/-- The collections the pages show. -/
inductive Collection where
  | Expenses
  | Budgets
  | Savings
  | Goals
  deriving DecidableEq

/-- The GET route of a collection. -/
def Collection.getRoute : Collection → Route
  | Expenses => .getExpenses
  | Budgets => .getBudgets
  | Savings => .getSavings
  | Goals => .getGoals

/-- What the reader of a collection makes of the user's rows. -/
def listed (db : Db) (user_id : Int32) : Collection → Except Exn (List WValue)
  | .Expenses => (((db.Expenses.select fun r => r.user_id == user_id).map expenseCells).mapM
      readExpense).map (List.map expenseJson)
  | .Budgets => (((db.Budgets.select fun r => r.user_id == some user_id).map budgetCells).mapM
      readBudget).map (List.map budgetJson)
  | .Savings => (((db.Savings.select fun r => r.user_id == some user_id).map savingCells).mapM
      readSavingTx).map (List.map savingJson)
  | .Goals => (((db.Goals.select fun r => r.user_id == some user_id).map goalCells).mapM
      readGoal).map (List.map goalJson)

/-- The answer of a GET with an acting user. -/
def listing : Except Exn (List WValue) → Response
  | .ok l => ⟨200, .json (.ofList l)⟩
  | .error _ => ⟨500, .text []⟩

variable {C : Crypto} {auth : Request → Int32} {ms : MySql} {f : Fault} {db : Db}

theorem run_get {α : Type} {req : Request} {read : Row → Except Exn α} {q : Int32 → Stmt}
    {json : α → WValue} {rows : ResultSet} (ha : auth req ≠ -1)
    (he : exec ms db (q (auth req)) = some (db, some rows)) :
    (answer ((getList auth req (fun u => fetch (q u) read) json).run (exec ms) f (.idle db)).1,
        ((getList auth req (fun u => fetch (q u) read) json).run (exec ms) f (.idle db)).2) =
      (listing (if f.query || f.store then .ok [] else (rows.mapM read).map (List.map json)),
        .idle db) := by
  simp only [getList, protect, if_neg ha, Prog.bind_eq, Prog.pure_eq]
  rw [Prog.run_bind, run_fetch he]
  by_cases hf : (f.query || f.store) = true
  · simp only [if_pos hf]
    rfl
  · simp only [if_neg hf]
    cases rows.mapM read <;> rfl

/-- **A GET with an acting user.** A failed call reads as an empty list. -/
theorem serve_get {call : Call} {c : Collection} (hc : call.route = c.getRoute)
    (ha : auth call.req ≠ -1) : serve C auth ms call (.idle db) =
      (listing (if call.fault.query || call.fault.store then .ok []
        else listed db (auth call.req) c), .idle db) := by
  obtain ⟨route, req, f⟩ := call
  cases c with
  | Expenses => cases hc; exact run_get ha (exec_selectExpenses _)
  | Budgets => cases hc; exact run_get ha (exec_selectBudgets _)
  | Savings => cases hc; exact run_get ha (exec_selectSavings _)
  | Goals => cases hc; exact run_get ha (exec_selectGoals _)

/-- A protected route without an acting user: 401, and no call. -/
theorem handle_unauthorized {route : Route} {req : Request} (hp : route.protected = true)
    (ha : auth req = -1) : handle C auth route req = .ret (respond 401 "Unauthorized") := by
  cases route with
  | register salt => cases hp
  | login now => cases hp
  | _ => simp [handle, postExpenses, Routes.getExpenses, Routes.deleteExpense, postBudgets,
      Routes.getBudgets, postSavings, getSavings, postGoals, Routes.getGoals, postRecord, getList,
      protect, ha]

end Listing

/-! ## Logins, and what every request leaves -/

section Login

/-- The row `getPasswordHash` reads. -/
def lookup (f : Fault) (db : Db) (email : Bytes) : Option (Int32 × UserRow) :=
  if f.query || f.store || email.contains 0 then none
  else (db.users.select fun r => r.email == some email).head?

variable {C : Crypto} {auth : Request → Int32} {ms : MySql} {f : Fault} {db : Db}

theorem exec_selectUser_eq (email : Bytes) : exec ms db (.selectUser email) =
    if email.contains 0 then none
    else some (db, some ((db.users.select fun r => r.email == some email).map userCells)) := by
  unfold exec
  simp only [Stmt.strings, List.any_cons, List.any_nil, Bool.or_false]
  rfl

theorem run_getPasswordHash (email : Bytes) (u : Int32) (n : Bytes) :
    (getPasswordHash email u n).run (exec ms) f (.idle db) =
      (.ok (match lookup f db email with
        | none => ([], u, n)
        | some r => (cStr r.2.password_hash, r.1, textOr [] (.ofText r.2.display_name))), .idle db) := by
  cases hf : f.query with
  | true =>
    simp [getPasswordHash, lookup, Prog.callQuery, Prog.bind, Prog.run, Conn.query, Conn.idle, hf]
  | false =>
    by_cases h0 : email.contains 0 = true
    · simp [getPasswordHash, lookup, Prog.callQuery, Prog.bind, Prog.run, Conn.query, Conn.idle, hf,
        exec_selectUser_eq, List.contains_iff_mem.mp h0]
    have he : exec ms db (.selectUser email) =
        some (db, some ((db.users.select fun r => r.email == some email).map userCells)) := by
      rw [exec_selectUser_eq, if_neg h0]
    cases hs : f.store with
    | true =>
      simp [getPasswordHash, lookup, Prog.callQuery, Prog.callStore, Prog.bind, Prog.run, Conn.query,
        Conn.store, Conn.idle, hf, hs, he]
    | false =>
      have hl : lookup f db email = (db.users.select fun r => r.email == some email).head? := by
        simp only [lookup, hf, hs, h0, Bool.or_self, Bool.false_eq_true, if_false]
      rw [hl]
      cases hsel : db.users.select fun r => r.email == some email with
      | nil =>
        simp [getPasswordHash, Prog.callQuery, Prog.callStore, Prog.bind, Prog.run, Conn.query,
          Conn.store, Conn.idle, hf, hs, he, hsel]
      | cons r rest =>
        simp [getPasswordHash, Prog.callQuery, Prog.callStore, Prog.bind, Prog.run, Conn.query,
          Conn.store, Conn.idle, hf, hs, he, hsel, userCells, col, stoi, textOr]

/-- What a login answers, by the row it reads. -/
def loginAnswer (C : Crypto) (now : ℕ) (password : Bytes) : Option (Int32 × UserRow) → Response
  | none => respond 401 "Invalid credentials"
  | some r =>
    let hash := cStr r.2.password_hash
    let display_name := textOr [] (.ofText r.2.display_name)
    if hash ≠ [] ∧ verifyPassword C password hash = true then
      ⟨200, .json (.object [(ascii "token", .string (generateJWT C r.1 display_name now)),
        (ascii "username", .string display_name)])⟩
    else respond 401 "Invalid credentials"

/-- **A login.** -/
theorem serve_login {now : ℕ} {req : Request} {x : RValue} {email password : Bytes}
    (hb : req.body = some x) (hr : readLoginBody x = .ok (email, password)) :
    serve C auth ms ⟨.login now, req, f⟩ (.idle db) =
      (loginAnswer C now password (lookup f db email), .idle db) := by
  simp only [serve, handle, postLogin, load, hb, hr, Prog.bind_eq, Prog.lift_ok, Prog.ret_bind,
    Prog.pure_eq]
  rw [Prog.run_bind, run_getPasswordHash]
  cases lookup f db email with
  | none => simp [loginAnswer, answer]
  | some r =>
    simp only [loginAnswer]
    split <;> rfl

/-- A login whose body is not read: no call, and no 200. -/
theorem serve_login_unread {now : ℕ} {req : Request}
    (h : ∀ x ep, req.body = some x → readLoginBody x ≠ .ok ep) {c : Conn Db ResultSet} :
    ∃ r, serve C auth ms ⟨.login now, req, f⟩ c = (r, c) ∧ r.code ∈ [400, 500] := by
  cases hb : req.body with
  | none =>
    exact ⟨respond 400 "Invalid JSON", by simp [serve, handle, postLogin, load, hb, answer],
      by simp [respond]⟩
  | some x =>
    cases hr : readLoginBody x with
    | error e =>
      exact ⟨⟨500, .text []⟩, by simp [serve, handle, postLogin, load, hb, hr, answer], by simp⟩
    | ok ep => exact absurd hr (h x ep hb)

/-- A request without an acting user on a protected route. -/
theorem serve_unauthorized {call : Call} (hp : call.route.protected = true)
    (ha : auth call.req = -1) (c : Conn Db ResultSet) :
    serve C auth ms call c = (respond 401 "Unauthorized", c) := by
  simp only [serve, handle_unauthorized hp ha, Prog.run_ret, answer]

/-- The routes that can store. -/
def writes : Route → Bool
  | .login _ | .getExpenses | .getBudgets | .getSavings | .getGoals => false
  | _ => true

/-- A request to such a route that does not get to its statement. -/
theorem serve_unstored {call : Call} (h : storing C auth call = none)
    (hw : writes call.route = true) {c : Conn Db ResultSet} :
    ∃ r, serve C auth ms call c = (r, c) ∧ r.code ∈ [400, 401, 500] ∧
      (auth call.req ≠ -1 → r.code ≠ 401) := by
  obtain ⟨route, req, f⟩ := call
  have answered : ∀ {h : Handler}, (∃ r, h.run (exec ms) f c = (r, c) ∧
      (answer r).code ∈ [400, 401, 500] ∧ (auth req ≠ -1 → (answer r).code ≠ 401)) →
      ∃ r, (answer (h.run (exec ms) f c).1, (h.run (exec ms) f c).2) = (r, c) ∧
        r.code ∈ [400, 401, 500] ∧ (auth req ≠ -1 → r.code ≠ 401) := by
    intro h ⟨r, hr, hc⟩
    exact ⟨answer r, by rw [hr], hc⟩
  cases route with
  | register salt => exact answered (run_register_none h)
  | postExpenses => exact answered (run_post_none (q := .insertExpense) _ _ h)
  | deleteExpense id =>
    simp only [storing] at h
    split at h
    · rename_i ha
      exact ⟨_, serve_unauthorized rfl ha c, by simp [respond], fun hn => absurd ha hn⟩
    · cases h
  | postBudgets => exact answered (run_post_none (q := .insertBudget) _ _ h)
  | postSavings => exact answered (run_post_none (q := .insertSaving) _ _ h)
  | postGoals => exact answered (run_post_none (q := .insertGoal) _ _ h)
  | _ => cases hw

theorem issued_answer {q : Stmt} {yes no : Response} {c : Conn Db ResultSet} :
    ((execute q).bind fun done => if done then Prog.ret yes else .ret no).issued (exec ms) f c =
      [q] := by
  have ret : ∀ b : Bool, ∀ c' : Conn Db ResultSet,
      (if b then (.ret yes : Handler) else .ret no).issued (exec ms) f c' = [] := by
    intro b c'
    cases b <;> rfl
  rw [Prog.issued_bind]
  show q :: (_ ++ _) = _
  simp only [ret]
  rfl

theorem issued_post {α : Type} {req : Request} {read : Int32 → RValue → Except Exn α}
    {add : α → Op Bool} {q : α → Stmt} (hadd : ∀ r, add r = execute (q r)) (yes no : String)
    {c : Conn Db ResultSet} : (postRecord auth req read add yes no).issued (exec ms) f c =
      (postStmt auth read q req).toList := by
  unfold postRecord protect postStmt
  by_cases ha : auth req = -1
  · rw [if_pos ha, if_pos ha]
    rfl
  rw [if_neg ha, if_neg ha]
  unfold load
  cases req.body with
  | none => rfl
  | some x =>
    cases hr : read (auth req) x with
    | error e => simp only [hr]; rfl
    | ok r =>
      simp only [hr, hadd, Prog.bind_eq, Prog.lift_ok, Prog.ret_bind, Prog.pure_eq]
      exact issued_answer

/-- **The statements of a request that can store**: the one it stores with. -/
theorem issued_writes {call : Call} (hw : writes call.route = true) {c : Conn Db ResultSet} :
    (handle C auth call.route call.req).issued (exec ms) call.fault c =
      (storing C auth call).toList := by
  obtain ⟨route, req, f⟩ := call
  cases route with
  | register salt =>
    simp only [handle, postRegister, storing, registerStmt]
    unfold load
    cases req.body with
    | none => rfl
    | some x =>
      cases hr : readRegisterBody x with
      | error e => simp only [hr]; rfl
      | ok enp =>
        simp only [hr, Prog.bind_eq, Prog.lift_ok, Prog.ret_bind, Prog.pure_eq]
        exact issued_answer
  | deleteExpense id =>
    simp only [handle, Routes.deleteExpense, storing]
    unfold protect
    by_cases ha : auth req = -1
    · rw [if_pos ha, if_pos ha]
      rfl
    · rw [if_neg ha, if_neg ha]
      exact issued_answer
  | postExpenses => exact issued_post (fun _ => rfl) _ _
  | postBudgets => exact issued_post (fun _ => rfl) _ _
  | postSavings => exact issued_post (fun _ => rfl) _ _
  | postGoals => exact issued_post (fun _ => rfl) _ _
  | _ => cases hw

/-- A GET, with or without an acting user, changes nothing. -/
theorem serve_get_conn {call : Call} {c : Collection} (hc : call.route = c.getRoute) :
    (serve C auth ms call (.idle db)).2 = .idle db := by
  by_cases ha : auth call.req = -1
  · have hp : call.route.protected = true := by rw [hc]; cases c <;> rfl
    rw [serve_unauthorized hp ha]
  · rw [serve_get hc ha]

/-- A request that does not store leaves the database as it was. -/
theorem serve_not_storing {call : Call} (h : storing C auth call = none) :
    (serve C auth ms call (.idle db)).2 = .idle db := by
  by_cases hw : writes call.route = true
  · have ⟨r, hr, _⟩ : ∃ r, serve C auth ms call (.idle db) = (r, .idle db) ∧ _ :=
      serve_unstored h hw
    rw [hr]
  obtain ⟨route, req, f⟩ := call
  cases route with
  | login now =>
    by_cases hread : ∃ x ep, req.body = some x ∧ readLoginBody x = .ok ep
    · obtain ⟨x, ep, hb, hr⟩ := hread
      rw [serve_login hb hr]
    · have ⟨r, hr, _⟩ : ∃ r, serve C auth ms ⟨.login now, req, f⟩ (.idle db) = (r, .idle db) ∧ _ :=
        serve_login_unread fun x ep hb hr => hread ⟨x, ep, hb, hr⟩
      rw [hr]
  | getExpenses => exact serve_get_conn (c := .Expenses) rfl
  | getBudgets => exact serve_get_conn (c := .Budgets) rfl
  | getSavings => exact serve_get_conn (c := .Savings) rfl
  | getGoals => exact serve_get_conn (c := .Goals) rfl
  | _ => exact absurd rfl hw

/-- A protected request is served exactly when it has an acting user. -/
theorem served_iff {call : Call} (hp : call.route.protected = true) :
    (serve C auth ms call (.idle db)).1.code ≠ 401 ↔ auth call.req ≠ -1 := by
  refine ⟨?_, ?_⟩
  · intro h ha
    rw [serve_unauthorized hp ha] at h
    exact h rfl
  intro ha
  by_cases hw : writes call.route = true
  · cases hs : storing C auth call with
    | none =>
      have ⟨r, hr, _, hc⟩ : ∃ r, serve C auth ms call (.idle db) = (r, .idle db) ∧ _ :=
        serve_unstored hs hw
      rw [hr]
      exact hc ha
    | some q =>
      have ⟨r, hr, hc⟩ : ∃ r, serve C auth ms call (.idle db) = (r, _) ∧ _ := serve_storing hs
      rw [hr, hc]
      cases hroute : call.route <;> split <;> simp [okCode, failCode]
  · obtain ⟨c, hc⟩ : ∃ c : Collection, call.route = c.getRoute := by
      cases hroute : call.route with
      | getExpenses => exact ⟨.Expenses, rfl⟩
      | getBudgets => exact ⟨.Budgets, rfl⟩
      | getSavings => exact ⟨.Savings, rfl⟩
      | getGoals => exact ⟨.Goals, rfl⟩
      | login now => rw [hroute] at hp; cases hp
      | _ => rw [hroute] at hw; exact absurd rfl hw
    rw [serve_get hc ha]
    simp only [listing]
    split <;> simp

/-- **The database after a request.** -/
theorem serve_conn (call : Call) : (serve C auth ms call (.idle db)).2 =
    .idle (((storing C auth call).bind (stored ms call.fault db)).getD db) := by
  cases h : storing C auth call with
  | none => exact serve_not_storing h
  | some q =>
    have ⟨r, hr, _⟩ : ∃ r, serve C auth ms call (.idle db) = (r, _) ∧ _ := serve_storing h
    rw [hr]
    rfl

/-- Nothing is left to fetch. -/
def Idle (c : Conn Db ResultSet) : Prop := c.pending = none

theorem idle_idle (db : Db) : Idle (.idle db) := rfl

theorem Idle.eq {c : Conn Db ResultSet} (h : Idle c) : c = .idle c.db := by
  obtain ⟨db, pending⟩ := c
  cases h
  rfl

theorem Idle.out {c : Conn Db ResultSet} (hc : Idle c) (call : Call) :
    (server C auth ms).out c call = (serve C auth ms call (.idle c.db)).1 := by
  rw [← hc.eq]
  rfl

theorem Idle.next {c : Conn Db ResultSet} (hc : Idle c) (call : Call) :
    (server C auth ms).next c call =
      .idle (((storing C auth call).bind (stored ms call.fault c.db)).getD c.db) := by
  rw [← serve_conn, ← hc.eq]
  rfl

/-- One request after another finds the connection idle. -/
theorem server_idle : (server C auth ms).Inductive Idle := by
  intro c call hc
  rw [hc.next]
  rfl

end Login

end ExpenseTracker.L3.Serve
