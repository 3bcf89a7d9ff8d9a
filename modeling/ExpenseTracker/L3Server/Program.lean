import ExpenseTracker.L2Store.SqlText
import ExpenseTracker.L3Server.Serve

/-!
# The program

The process behind the routes. It sends texts, and the database does what it reads in
them; and a handler that reads memory nobody has written ends the process, which
answers no request after that. `server` is the program at its best: every text is
read as the statement meant, and every handler ends.

* `ended_iff`: the requests that end the process.
* `program_step`, `program_after`, `program_history`: requests that do not, and whose
  texts are read as meant, are answered as by `server`.
-/
namespace ExpenseTracker.L3.Program

open ExpenseTracker.Core ExpenseTracker.L1.Password
open ExpenseTracker.L2.Schema ExpenseTracker.L2.Statement ExpenseTracker.L2.Server
open ExpenseTracker.L2.SqlText
open ExpenseTracker.L3.Json ExpenseTracker.L3.DbManager ExpenseTracker.L3.Routes
open ExpenseTracker.L3.Serve

/-! ## The process -/

/-- What the database does with the text of a statement; `other` is what it does with a
text that is not read as the statement meant. -/
def execText (ms : MySql) (other : Exec Db Bytes ResultSet) : Exec Db Stmt ResultSet := fun db q =>
  if Faithful q then exec ms db q else other db q.sent

/-- The process, `up` until a handler ends it, and its connection. -/
structure Process where
  up : Bool
  conn : Conn Db ResultSet

def Process.start (db : Db) : Process := ⟨true, .idle db⟩

def ended : Except Exn Response → Bool
  | .error .segfault => true
  | _ => false

variable (C : Crypto) (auth : Request → Int32)

/-- The program, one request at a time; `none` is no answer. -/
def program (ex : Exec Db Stmt ResultSet) : Machine Process Call (Option Response) where
  step p call :=
    if p.up then
      let r := (handle C auth call.route call.req).run ex call.fault p.conn
      if ended r.1 then (none, ⟨false, r.2⟩) else (some (answer r.1), ⟨true, r.2⟩)
    else (none, p)

/-- The program as it runs: its statements are sent as texts. -/
abbrev app (ms : MySql) (other : Exec Db Bytes ResultSet) : Machine Process Call (Option Response) :=
  program C auth (execText ms other)

/-- A POST of an acting user whose body is a list with an element: `has` is its first read.
mirrors src/src/main.cpp:86-95 -/
def Ends (call : Call) : Prop := call.route = .postExpenses ∧ auth call.req ≠ -1 ∧
  ∃ v l, call.req.body = some (.list (v :: l))

/-- A request that ends in an answer, and whose statements do what they are meant to. -/
structure Orderly (ms : MySql) (ex : Exec Db Stmt ResultSet) (call : Call) : Prop where
  ends : ¬ Ends auth call
  meant : ∀ c, ∀ q ∈ (handle C auth call.route call.req).issued (exec ms) call.fault c,
    ∀ db, ex db q = exec ms db q

/-- A request that does not end the process, and whose texts are all read as meant. -/
structure Tame (ms : MySql) (call : Call) : Prop where
  ends : ¬ Ends auth call
  faithful : ∀ c, ∀ q ∈ (handle C auth call.route call.req).issued (exec ms) call.fault c, Faithful q

/-! ## Requests that end it -/

section Reading

variable {α β : Type} {x : Except Exn α} {f : α → Except Exn β} {e : Exn} {v : RValue} {key : String}

theorem bind_ne (hx : x ≠ .error e) (hf : ∀ a, x = .ok a → f a ≠ .error e) :
    (x >>= f) ≠ .error e := by
  cases x with
  | error e' => exact fun h => hx (congrArg Except.error (Except.error.inj h))
  | ok a => exact hf a rfl

theorem get_ne (v : RValue) (key : String) : v.get key ≠ .error .segfault := by
  unfold RValue.get
  split
  · split <;> simp
  · simp

theorem field_ne {read : RValue → Except Exn α} (hr : ∀ v, read v ≠ .error .segfault) :
    v.field key read ≠ .error .segfault := bind_ne (get_ne v key) fun a _ => hr a

theorem has_segfault (v : RValue) (key : String) :
    v.has key = .error .segfault ↔ ∃ w l, v = .list (w :: l) := by
  cases v with
  | list l => cases l <;> simp [RValue.has]
  | _ => simp [RValue.has]

theorem fieldOr_ne {read : RValue → Except Exn α} {dflt : α} (hv : ∀ w l, v ≠ .list (w :: l))
    (hr : ∀ v, read v ≠ .error .segfault) : v.fieldOr key read dflt ≠ .error .segfault := by
  refine bind_ne ?_ fun present _ => ?_
  · rw [Ne, has_segfault]
    rintro ⟨w, l, h⟩
    exact hv w l h
  · cases present with
    | true => exact field_ne hr
    | false => exact fun h => by cases h

/-- A value with a member is an object. -/
theorem not_list_of_field {read : RValue → Except Exn α} {a : α} (h : v.field key read = .ok a) :
    ∀ w l, v ≠ .list (w :: l) := by
  rintro w l rfl
  cases h

theorem s_ne (v : RValue) : v.s ≠ .error .segfault := by cases v <;> simp [RValue.s]

theorem d_ne (v : RValue) : v.d ≠ .error .segfault := by cases v <;> simp [RValue.d]

theorem i_ne (v : RValue) : v.i ≠ .error .segfault := by cases v <;> simp [RValue.i]

theorem readExpenseBody_segfault (u : Int32) (v : RValue) :
    readExpenseBody u v = .error .segfault ↔ ∃ w l, v = .list (w :: l) := by
  constructor
  · intro h
    by_contra hv
    have hlist : ∀ w l, v ≠ .list (w :: l) := fun w l he => hv ⟨w, l, he⟩
    refine absurd h ?_
    exact bind_ne (fieldOr_ne hlist i_ne) fun _ _ => bind_ne (field_ne d_ne) fun _ _ =>
      bind_ne (field_ne s_ne) fun _ _ => bind_ne (field_ne s_ne) fun _ _ =>
        bind_ne (fieldOr_ne hlist s_ne) fun _ _ h => by cases h
  · rintro ⟨w, l, rfl⟩
    rfl

theorem readRegisterBody_ne (v : RValue) : readRegisterBody v ≠ .error .segfault :=
  bind_ne (field_ne s_ne) fun _ _ => bind_ne (field_ne s_ne) fun _ _ =>
    bind_ne (field_ne s_ne) fun _ _ h => by cases h

theorem readLoginBody_ne (v : RValue) : readLoginBody v ≠ .error .segfault :=
  bind_ne (field_ne s_ne) fun _ _ => bind_ne (field_ne s_ne) fun _ _ h => by cases h

theorem readBudgetBody_ne (u : Int32) (v : RValue) : readBudgetBody u v ≠ .error .segfault :=
  bind_ne (field_ne s_ne) fun _ _ => bind_ne (field_ne d_ne) fun _ _ h => by cases h

theorem readSavingBody_ne (u : Int32) (v : RValue) : readSavingBody u v ≠ .error .segfault :=
  bind_ne (field_ne d_ne) fun _ _ => bind_ne (field_ne s_ne) fun _ _ =>
    bind_ne (field_ne s_ne) fun _ _ h => by cases h

/-- The title is read first, so no list gets to `has`. -/
theorem readGoalBody_ne (u : Int32) (v : RValue) : readGoalBody u v ≠ .error .segfault :=
  bind_ne (field_ne s_ne) fun _ h => bind_ne (field_ne d_ne) fun _ _ =>
    bind_ne (fieldOr_ne (not_list_of_field h) d_ne) fun _ _ => bind_ne (field_ne s_ne) fun _ _ =>
      bind_ne (fieldOr_ne (not_list_of_field h) s_ne) fun _ _ h => by cases h

end Reading

section Handlers

variable {α : Type} {auth : Request → Int32} {req : Request}

theorem execute_never (q : Stmt) : (execute q).Never .segfault := fun _ => trivial

theorem stoi_ne (c : Cell) : stoi c ≠ .error .segfault := by cases c <;> simp [stoi]

theorem stoiOr_ne (d : Int32) (c : Cell) : stoiOr d c ≠ .error .segfault := by
  cases c <;> simp [stoiOr, stoi]

theorem stod_ne (c : Cell) : stod c ≠ .error .segfault := by cases c <;> simp [stod]

theorem mapM_ne {read : Row → Except Exn α} (hr : ∀ row, read row ≠ .error .segfault)
    (l : List Row) : l.mapM read ≠ .error .segfault := by
  induction l with
  | nil => exact fun h => by cases h
  | cons row l ih =>
    rw [List.mapM_cons]
    exact bind_ne (hr row) fun _ _ => bind_ne ih fun _ _ h => by cases h

theorem fetch_never {q : Stmt} {read : Row → Except Exn α}
    (hr : ∀ row, read row ≠ .error .segfault) : (fetch q read).Never .segfault := by
  unfold fetch
  refine Prog.Never.bind (fun _ => trivial) fun failed => ?_
  cases failed with
  | true => trivial
  | false =>
    refine Prog.Never.bind (fun _ => trivial) fun result => ?_
    cases result with
    | none => trivial
    | some rows => exact Prog.never_lift (mapM_ne hr rows)

theorem protect_never {k : Int32 → Handler} (hk : ∀ u, (k u).Never .segfault) :
    (protect auth req k).Never .segfault := by
  unfold protect
  dsimp only
  split
  · trivial
  · exact hk _

theorem load_never {k : RValue → Handler} (hk : ∀ x, req.body = some x → (k x).Never .segfault) :
    (load req k).Never .segfault := by
  unfold load
  cases hb : req.body with
  | none => trivial
  | some x => exact hk x hb

/-- The body shared by the POST routes. -/
theorem postRecord_never {read : Int32 → RValue → Except Exn α} {add : α → Op Bool}
    (hadd : ∀ r, (add r).Never .segfault) (yes no : String)
    (hread : ∀ u x, req.body = some x → read u x ≠ .error .segfault) :
    (postRecord auth req read add yes no).Never .segfault := by
  refine protect_never fun u => load_never fun x hx => ?_
  refine Prog.Never.bind (Prog.never_lift (hread u x hx)) fun r => ?_
  refine Prog.Never.bind (hadd r) fun done => ?_
  cases done <;> trivial

theorem getList_never {list : Int32 → Op (List α)} (hl : ∀ u, (list u).Never .segfault)
    (json : α → WValue) : (getList auth req list json).Never .segfault :=
  protect_never fun u => (hl u).bind fun _ => trivial

theorem getPasswordHash_never (email : Bytes) (u : Int32) (n : Bytes) :
    (getPasswordHash email u n).Never .segfault := by
  unfold getPasswordHash
  refine Prog.Never.bind (fun _ => trivial) fun failed => ?_
  cases failed with
  | true => trivial
  | false =>
    refine Prog.Never.bind (fun _ => trivial) fun result => ?_
    match result with
    | none => trivial
    | some [] => trivial
    | some (row :: _) => exact Prog.Never.bind (Prog.never_lift (stoi_ne _)) fun _ => trivial

theorem readers_ne (row : Row) : readExpense row ≠ .error .segfault ∧
    readBudget row ≠ .error .segfault ∧ readSavingTx row ≠ .error .segfault ∧
      readGoal row ≠ .error .segfault := by
  refine ⟨?_, ?_, ?_, ?_⟩
  · exact bind_ne (stoi_ne _) fun _ _ => bind_ne (stoi_ne _) fun _ _ =>
      bind_ne (stoiOr_ne _ _) fun _ _ => bind_ne (stod_ne _) fun _ _ h => by cases h
  · exact bind_ne (stoi_ne _) fun _ _ => bind_ne (stoi_ne _) fun _ _ =>
      bind_ne (stod_ne _) fun _ _ h => by cases h
  · exact bind_ne (stoi_ne _) fun _ _ => bind_ne (stoi_ne _) fun _ _ =>
      bind_ne (stod_ne _) fun _ _ h => by cases h
  · exact bind_ne (stoi_ne _) fun _ _ => bind_ne (stoi_ne _) fun _ _ =>
      bind_ne (stod_ne _) fun _ _ => bind_ne (stod_ne _) fun _ _ h => by cases h

/-- No other request reads such memory. -/
theorem handle_never (C : Crypto) {call : Call} (h : ¬ Ends auth call) :
    (handle C auth call.route call.req).Never .segfault := by
  obtain ⟨route, req, f⟩ := call
  cases route with
  | register salt =>
    refine load_never fun x _ => ?_
    refine Prog.Never.bind (Prog.never_lift (readRegisterBody_ne x)) fun r => ?_
    refine Prog.Never.bind (execute_never _) fun done => ?_
    cases done <;> trivial
  | login now =>
    refine load_never fun x _ => ?_
    refine Prog.Never.bind (Prog.never_lift (readLoginBody_ne x)) fun r => ?_
    refine Prog.Never.bind (getPasswordHash_never _ _ _) fun r => ?_
    dsimp only
    split <;> trivial
  | postExpenses =>
    by_cases ha : auth req = -1
    · show (handle C auth .postExpenses req).Never .segfault
      rw [handle_unauthorized rfl ha]
      trivial
    refine postRecord_never (fun _ => execute_never _) _ _ fun u x hx hseg => ?_
    obtain ⟨w, l, rfl⟩ := (readExpenseBody_segfault u x).mp hseg
    exact h ⟨rfl, ha, w, l, hx⟩
  | deleteExpense id =>
    refine protect_never fun u => Prog.Never.bind (execute_never _) fun done => ?_
    cases done <;> trivial
  | postBudgets => exact postRecord_never (fun _ => execute_never _) _ _ fun u x _ => readBudgetBody_ne u x
  | postSavings => exact postRecord_never (fun _ => execute_never _) _ _ fun u x _ => readSavingBody_ne u x
  | postGoals => exact postRecord_never (fun _ => execute_never _) _ _ fun u x _ => readGoalBody_ne u x
  | getExpenses => exact getList_never (fun _ => fetch_never fun row => (readers_ne row).1) _
  | getBudgets => exact getList_never (fun _ => fetch_never fun row => (readers_ne row).2.1) _
  | getSavings => exact getList_never (fun _ => fetch_never fun row => (readers_ne row).2.2.1) _
  | getGoals => exact getList_never (fun _ => fetch_never fun row => (readers_ne row).2.2.2) _

theorem handle_ends (C : Crypto) {call : Call} (h : Ends auth call) :
    handle C auth call.route call.req = .raise .segfault := by
  obtain ⟨hroute, ha, v, l, hb⟩ := h
  rw [hroute]
  simp only [handle, postExpenses, postRecord, protect, if_neg ha, load, hb]
  rfl

end Handlers

/-! ## Runs -/

section Runs

variable {C auth} {ms : MySql} {ex : Exec Db Stmt ResultSet} {call : Call} {calls : List Call}
  {c : Conn Db ResultSet} {p : Process}

theorem ended_eq_false {r : Except Exn Response} (h : r ≠ .error .segfault) : ended r = false := by
  unfold ended
  split
  · exact absurd rfl h
  · rfl

/-- Exactly these requests end the process. -/
theorem ended_iff (C : Crypto) (ex : Exec Db Stmt ResultSet) (c : Conn Db ResultSet) :
    ended ((handle C auth call.route call.req).run ex call.fault c).1 = true ↔ Ends auth call := by
  constructor
  · intro h
    by_contra hends
    rw [ended_eq_false ((handle_never C hends).run c)] at h
    cases h
  · intro h
    rw [handle_ends C h]
    rfl

theorem program_ends (hp : p.up = true) (h : Ends auth call) :
    (program C auth ex).step p call = (none, ⟨false, p.conn⟩) := by
  simp only [program, hp, if_true, handle_ends C h, Prog.run_raise]
  rfl

theorem program_down (hp : p.up = false) : (program C auth ex).step p call = (none, p) := by
  simp only [program, hp, Bool.false_eq_true, if_false]

/-- **One request.** -/
theorem program_step (h : Orderly C auth ms ex call) (c : Conn Db ResultSet) :
    (program C auth ex).step ⟨true, c⟩ call =
      (some ((server C auth ms).out c call), ⟨true, (server C auth ms).next c call⟩) := by
  have hrun := Prog.run_congr (f := call.fault) _ c (h.meant c)
  have hne : ((handle C auth call.route call.req).run ex call.fault c).1 ≠ .error .segfault :=
    (handle_never C h.ends).run c
  have hend := ended_eq_false hne
  simp only [program, if_true, hend, Bool.false_eq_true, if_false]
  rw [hrun]
  rfl

/-- **A run.** -/
theorem program_after (h : ∀ call ∈ calls, Orderly C auth ms ex call) (c : Conn Db ResultSet) :
    (program C auth ex).after ⟨true, c⟩ calls = ⟨true, (server C auth ms).after c calls⟩ := by
  induction calls generalizing c with
  | nil => rfl
  | cons call calls ih =>
    obtain ⟨hcall, hrest⟩ := List.forall_mem_cons.mp h
    rw [Machine.after_cons, Machine.after_cons, Machine.next, program_step hcall, ih hrest]

theorem program_out (h : Orderly C auth ms ex call) (c : Conn Db ResultSet) :
    (program C auth ex).out ⟨true, c⟩ call = some ((server C auth ms).out c call) := by
  rw [Machine.out, program_step h]

theorem program_history (h : ∀ call ∈ calls, Orderly C auth ms ex call) (c : Conn Db ResultSet) :
    (program C auth ex).history ⟨true, c⟩ calls =
      ((server C auth ms).history c calls).map fun x => (x.1, some x.2) := by
  induction calls generalizing c with
  | nil => rfl
  | cons call calls ih =>
    obtain ⟨hcall, hrest⟩ := List.forall_mem_cons.mp h
    rw [Machine.history, Machine.history, List.map_cons, program_out hcall, Machine.next,
      program_step hcall, ih hrest]

/-- With the statements themselves carried out, only the ends are left to watch. -/
theorem orderly_exec (h : ¬ Ends auth call) : Orderly C auth ms (exec ms) call :=
  ⟨h, fun _ _ _ _ => rfl⟩

/-- With their texts sent, every text has to be read as meant. -/
theorem Tame.orderly (h : Tame C auth ms call) (other : Exec Db Bytes ResultSet) :
    Orderly C auth ms (execText ms other) call :=
  ⟨h.ends, fun c q hq _ => if_pos (h.faithful c q hq)⟩

/-- A request that can store is tame by the statement it stores with. -/
theorem tame_of_storing (hw : writes call.route = true) (hends : ¬ Ends auth call)
    (hq : ∀ q ∈ storing C auth call, ∀ s ∈ q.strings, Plain s) : Tame C auth ms call := by
  refine ⟨hends, fun c q hmem => (faithful_iff q).mpr (hq q ?_)⟩
  rw [issued_writes hw] at hmem
  exact Option.mem_toList.mp hmem

/-- A statement of numbers alone. -/
def Textless (q : Stmt) : Prop := q.strings = []

theorem fetch_only {α : Type} {q : Stmt} (hq : Textless q) (read : Row → Except Exn α) :
    (fetch q read).Only Textless := by
  unfold fetch
  refine Prog.Only.bind ⟨hq, fun _ => trivial⟩ fun failed => ?_
  cases failed with
  | true => trivial
  | false =>
    refine Prog.Only.bind (fun _ => trivial) fun result => ?_
    cases result with
    | none => trivial
    | some rows => exact Prog.only_lift _

theorem getList_only {α : Type} {list : Int32 → Op (List α)} (hl : ∀ u, (list u).Only Textless)
    (req : Request) (json : α → WValue) : (getList auth req list json).Only Textless := by
  unfold getList protect
  dsimp only
  split
  · trivial
  · exact (hl _).bind fun _ => trivial

/-- A list is asked for with a number alone. -/
theorem tame_get {k : Collection} (hroute : call.route = k.getRoute) : Tame C auth ms call := by
  have hends : ¬ Ends auth call := by
    intro h
    rw [h.1] at hroute
    cases k <;> cases hroute
  have honly : (handle C auth call.route call.req).Only Textless := by
    rw [hroute]
    cases k with
    | Expenses => exact getList_only (fun u => fetch_only (q := .selectExpenses u) rfl readExpense) _ _
    | Budgets => exact getList_only (fun u => fetch_only (q := .selectBudgets u) rfl readBudget) _ _
    | Savings => exact getList_only (fun u => fetch_only (q := .selectSavings u) rfl readSavingTx) _ _
    | Goals => exact getList_only (fun u => fetch_only (q := .selectGoals u) rfl readGoal) _ _
  refine ⟨hends, fun c q hq => (faithful_iff q).mpr ?_⟩
  rw [show q.strings = [] from honly.issued c q hq]
  simp

end Runs

end ExpenseTracker.L3.Program
