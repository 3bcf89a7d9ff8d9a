import ExpenseTracker.L4Service.Isolation
import ExpenseTracker.L4Service.Reads

/-!
# The ledger

What the four collections are for: an abstract ledger of records, to which a
POST adds the posted record once, from which a DELETE takes one, and which a
GET lists. The server refines it, request by request, as long as its reads
are carried out.

* `Ledger.Step`: the abstract ledger.
* `ExpenseForm` and its siblings: the bodies the pages send.
* `refines_step`, `ledger_refined_iff`: the tables hold the ledger at every
  point of every run, and every GET lists it, exactly when no GET of a user
  with records meets a failing call.
-/
namespace ExpenseTracker.L4.Refinement

open ExpenseTracker.Core ExpenseTracker.L1.Amount ExpenseTracker.L1.Password
open ExpenseTracker.L2.Schema ExpenseTracker.L2.Statement ExpenseTracker.L2.Server
open ExpenseTracker.L3.Json ExpenseTracker.L3.Routes ExpenseTracker.L3.Serve ExpenseTracker.L3.Records
open ExpenseTracker.L4.Isolation ExpenseTracker.L4.Tokens

/-! ## The forms -/

def IsText (v : RValue) (s : Bytes) : Prop := ∃ raw, v = .string raw s

/-- A number token that reads as the double nearest to `k` cents. -/
def IsAmount (v : RValue) (k : ℤ) : Prop :=
  ∃ n : Number, v = .number n ∧ Double.ofRat n.value = ofCents k

def IsInt (v : RValue) (i : Int32) : Prop := ∃ n : Number, v = .number n ∧ n.leading = i.toInt

/-- mirrors src/frontend/src/pages/Dashboard.jsx:82-86 -/
structure ExpenseForm (ms : MySql) where
  description : Bytes
  cents : ℤ
  category_id : Int32
  expense_date : Bytes
  type : Bytes
  fits : ms.fits 255 description = true
  inRange : |cents| < 10 ^ 10
  date : isDate expense_date = true
  label : type = ascii "income" ∨ type = ascii "expense"

/-- mirrors src/frontend/src/pages/Budgets.jsx:58 -/
structure BudgetForm (ms : MySql) where
  category_name : Bytes
  cents : ℤ
  fits : ms.fits 255 category_name = true
  inRange : |cents| < 10 ^ 10

/-- mirrors src/frontend/src/pages/Savings.jsx:47-48 -/
structure SavingForm (ms : MySql) where
  cents : ℤ
  description : Bytes
  transaction_date : Bytes
  inRange : |cents| < 10 ^ 10
  fits : ms.fits 255 description = true
  date : isDate transaction_date = true

/-- mirrors src/frontend/src/pages/Goals.jsx:49-55 -/
structure GoalForm (ms : MySql) where
  title : Bytes
  target : ℤ
  saved : ℤ
  deadline : Bytes
  priority : Bytes
  fits : ms.fits 255 title = true
  targetInRange : |target| < 10 ^ 10
  savedInRange : |saved| < 10 ^ 10
  date : isDate deadline = true
  fitsPriority : ms.fits 50 priority = true

/-- A body one of the pages sends. -/
inductive Form (ms : MySql) where
  | expense (f : ExpenseForm ms)
  | budget (f : BudgetForm ms)
  | saving (f : SavingForm ms)
  | goal (f : GoalForm ms)

namespace Form

variable {ms : MySql}

def route : Form ms → Route
  | expense _ => .postExpenses
  | budget _ => .postBudgets
  | saving _ => .postSavings
  | goal _ => .postGoals

/-- The texts of a form. -/
def texts : Form ms → List Bytes
  | expense f => [f.description, f.expense_date, f.type]
  | budget f => [f.category_name]
  | saving f => [f.description, f.transaction_date]
  | goal f => [f.title, f.deadline, f.priority]

/-- The JSON of a form. -/
def Body : Form ms → RValue → Prop
  | expense f, x => ∃ d a c e t, x = .object
      [(ascii "description", d), (ascii "amount", a), (ascii "category_id", c),
        (ascii "expense_date", e), (ascii "type", t)] ∧
      IsText d f.description ∧ IsAmount a f.cents ∧ IsInt c f.category_id ∧
      IsText e f.expense_date ∧ IsText t f.type
  | budget f, x => ∃ c a, x = .object
      [(ascii "category_name", c), (ascii "target_amount", a)] ∧
      IsText c f.category_name ∧ IsAmount a f.cents
  | saving f, x => ∃ a d t, x = .object
      [(ascii "amount", a), (ascii "description", d), (ascii "transaction_date", t)] ∧
      IsAmount a f.cents ∧ IsText d f.description ∧ IsText t f.transaction_date
  | goal f, x => ∃ t a s d p, x = .object
      [(ascii "title", t), (ascii "target_amount", a), (ascii "saved_amount", s),
        (ascii "deadline", d), (ascii "priority", p)] ∧
      IsText t f.title ∧ IsAmount a f.target ∧ IsAmount s f.saved ∧ IsText d f.deadline ∧
      IsText p f.priority

end Form

/-! ## The records of the forms -/

section Record

variable {ms : MySql} (id user_id : Int32)

def ExpenseForm.record (f : ExpenseForm ms) : Expense where
  id := id
  user_id := user_id
  category_id := f.category_id
  amount := ofCents f.cents
  description := f.description
  expense_date := f.expense_date
  type := f.type

def BudgetForm.record (f : BudgetForm ms) : Budget where
  id := id
  user_id := user_id
  category_name := f.category_name
  target_amount := ofCents f.cents

def SavingForm.record (f : SavingForm ms) : SavingTx where
  id := id
  user_id := user_id
  amount := ofCents f.cents
  description := f.description
  transaction_date := f.transaction_date

def GoalForm.record (f : GoalForm ms) : Goal where
  id := id
  user_id := user_id
  title := f.title
  target_amount := ofCents f.target
  saved_amount := ofCents f.saved
  deadline := f.deadline
  priority := f.priority

end Record

/-! ## The abstract ledger -/

/-- The records held, in the order they came. -/
structure Ledger where
  Expenses : List Expense
  Budgets : List Budget
  Savings : List SavingTx
  Goals : List Goal

namespace Ledger

def empty : Ledger := ⟨[], [], [], []⟩

/-- The user's records of a collection. -/
def entries (L : Ledger) (u : Int32) : Collection → List WValue
  | .Expenses => (L.Expenses.filter fun e => e.user_id == u).map expenseJson
  | .Budgets => (L.Budgets.filter fun b => b.user_id == u).map budgetJson
  | .Savings => (L.Savings.filter fun s => s.user_id == u).map savingJson
  | .Goals => (L.Goals.filter fun g => g.user_id == u).map goalJson

variable {ms : MySql}

/-- The ids taken in a form's collection. -/
def ids (L : Ledger) : Form ms → List Int32
  | .expense _ => L.Expenses.map Expense.id
  | .budget _ => L.Budgets.map Budget.id
  | .saving _ => L.Savings.map SavingTx.id
  | .goal _ => L.Goals.map Goal.id

/-- The ledger with one record more. -/
def post (L : Ledger) (id u : Int32) : Form ms → Ledger
  | .expense f => { L with Expenses := L.Expenses ++ [f.record id u] }
  | .budget f => { L with Budgets := L.Budgets ++ [f.record id u] }
  | .saving f => { L with Savings := L.Savings ++ [f.record id u] }
  | .goal f => { L with Goals := L.Goals ++ [f.record id u] }

/-- What a request and its answer do to the ledger. -/
inductive Step (ms : MySql) (auth : Request → Int32) : Ledger → Call → Response → Ledger → Prop
  | posted {L : Ledger} {call : Call} {r : Response} (f : Form ms) (x : RValue) (id : Int32) :
      call.route = f.route → call.req.body = some x → f.Body x → r.code = 201 → id ∉ L.ids f →
      Step ms auth L call r (L.post id (auth call.req) f)
  | deleted {L : Ledger} {call : Call} {r : Response} (id : Int32) :
      call.route = .deleteExpense id → r.code = 200 →
      Step ms auth L call r { L with Expenses := L.Expenses.filter fun e => e.id != id }
  | refused {L : Ledger} {call : Call} {r : Response} :
      writes call.route = true → r.code ≠ okCode call.route → Step ms auth L call r L
  | listed {L : Ledger} {call : Call} {r : Response} (k : Collection) :
      call.route = k.getRoute → r.body.entries.Perm (L.entries (auth call.req) k) →
      Step ms auth L call r L

end Ledger

/-! ## From a body to a row -/

section Bodies

variable {ms : MySql} {x v : RValue} {u : Int32}

theorem field_eq {α : Type} {key : String} {read : RValue → Except Exn α} (h : x.get key = .ok v) :
    x.field key read = read v := by
  rw [RValue.field, h]
  rfl

theorem fieldOr_eq {α : Type} {key : String} {read : RValue → Except Exn α} {dflt : α}
    (hp : x.has key = .ok true) (h : x.get key = .ok v) : x.fieldOr key read dflt = read v := by
  rw [RValue.fieldOr, hp]
  exact field_eq h

theorem IsText.s {s : Bytes} (h : IsText v s) : v.s = .ok s := by
  obtain ⟨raw, rfl⟩ := h
  rfl

theorem IsAmount.d {k : ℤ} (h : IsAmount v k) : v.d = .ok (ofCents k) := by
  obtain ⟨n, rfl, hn⟩ := h
  rw [RValue.d, hn]

theorem IsInt.i {i : Int32} (h : IsInt v i) : v.i = .ok i.toInt := by
  obtain ⟨n, rfl, hn⟩ := h
  have h1 := Int32.le_toInt i
  have h2 := Int32.toInt_lt i
  rw [RValue.i, hn, clampInt64]
  refine congrArg Except.ok ?_
  omega

theorem readExpenseBody_form {f : ExpenseForm ms} (h : (Form.expense f).Body x) :
    readExpenseBody u x = .ok (f.record 0 u) := by
  obtain ⟨d, a, c, e, t, rfl, hd, ha, hc, he, ht⟩ := h
  unfold readExpenseBody
  rw [fieldOr_eq (v := c) rfl rfl, hc.i, field_eq (v := a) rfl, ha.d, field_eq (v := d) rfl, hd.s,
    field_eq (v := e) rfl, he.s, fieldOr_eq (v := t) rfl rfl, ht.s]
  show Except.ok (⟨0, u, Int32.ofInt f.category_id.toInt, ofCents f.cents, f.description,
    f.expense_date, f.type⟩ : Expense) = _
  rw [Int32.ofInt_toInt]
  rfl

theorem readBudgetBody_form {f : BudgetForm ms} (h : (Form.budget f).Body x) :
    readBudgetBody u x = .ok (f.record 0 u) := by
  obtain ⟨c, a, rfl, hc, ha⟩ := h
  unfold readBudgetBody
  rw [field_eq (v := c) rfl, hc.s, field_eq (v := a) rfl, ha.d]
  rfl

theorem readSavingBody_form {f : SavingForm ms} (h : (Form.saving f).Body x) :
    readSavingBody u x = .ok (f.record 0 u) := by
  obtain ⟨a, d, t, rfl, ha, hd, ht⟩ := h
  unfold readSavingBody
  rw [field_eq (v := a) rfl, ha.d, field_eq (v := d) rfl, hd.s, field_eq (v := t) rfl, ht.s]
  rfl

theorem readGoalBody_form {f : GoalForm ms} (h : (Form.goal f).Body x) :
    readGoalBody u x = .ok (f.record 0 u) := by
  obtain ⟨t, a, s, d, p, rfl, ht, ha, hs, hd, hp⟩ := h
  unfold readGoalBody
  rw [field_eq (v := t) rfl, ht.s, field_eq (v := a) rfl, ha.d, fieldOr_eq (v := s) rfl rfl, hs.d,
    field_eq (v := d) rfl, hd.s, fieldOr_eq (v := p) rfl rfl, hp.s]
  rfl

theorem expenseRow_form (f : ExpenseForm ms) : expenseRow ms (f.record 0 u) = some
    ⟨u, some f.category_id, f.cents, some f.description, f.expense_date, some f.type⟩ := by
  simp [expenseRow, ExpenseForm.record, storeDecimal_ofCents f.inRange, storeText, f.fits,
    storeDate_of_isDate ms f.date, storeType_of_label ms f.label]

theorem budgetRow_form (f : BudgetForm ms) : budgetRow ms (f.record 0 u) = some
    ⟨some u, some f.category_name, some (ofCents f.cents)⟩ := by
  simp [budgetRow, BudgetForm.record, storeDouble_ofCents ms f.inRange, storeText, f.fits]

theorem savingRow_form (f : SavingForm ms) : savingRow ms (f.record 0 u) = some
    ⟨some u, some (ofCents f.cents), some f.description, some f.transaction_date⟩ := by
  simp [savingRow, SavingForm.record, storeDouble_ofCents ms f.inRange, storeText, f.fits,
    storeDate_of_isDate ms f.date]

theorem goalRow_form (f : GoalForm ms) : goalRow ms (f.record 0 u) = some
    ⟨some u, some f.title, some (ofCents f.target), some (ofCents f.saved), some f.deadline,
      some f.priority⟩ := by
  simp [goalRow, GoalForm.record, storeDouble_ofCents ms f.targetInRange,
    storeDouble_ofCents ms f.savedInRange, storeText, f.fits, f.fitsPriority,
    storeDate_of_isDate ms f.date]

end Bodies

/-! ## The tables as a ledger -/

/-- The records the tables hold. -/
def ledgerOf (db : Db) : Ledger where
  Expenses := db.Expenses.rows.map expenseOf
  Budgets := db.Budgets.rows.map budgetOf
  Savings := db.Savings.rows.map savingOf
  Goals := db.Goals.rows.map goalOf

/-- Every column is there, and every text is read to its end: the row is the
record it stands for. -/
structure Whole (db : Db) : Prop where
  Expenses : ∀ r ∈ db.Expenses.rows, r.2.category_id ≠ none ∧ r.2.description ≠ none ∧
    r.2.type ≠ none ∧ ∀ s ∈ expenseReader.texts r.2, (0 : UInt8) ∉ s
  Budgets : ∀ r ∈ db.Budgets.rows, r.2.user_id ≠ none ∧ r.2.category_name ≠ none ∧
    r.2.target_amount ≠ none ∧ ∀ s ∈ budgetReader.texts r.2, (0 : UInt8) ∉ s
  Savings : ∀ r ∈ db.Savings.rows, r.2.user_id ≠ none ∧ r.2.amount ≠ none ∧
    r.2.description ≠ none ∧ r.2.transaction_date ≠ none ∧
    ∀ s ∈ savingReader.texts r.2, (0 : UInt8) ∉ s
  Goals : ∀ r ∈ db.Goals.rows, r.2.user_id ≠ none ∧ r.2.title ≠ none ∧
    r.2.target_amount ≠ none ∧ r.2.saved_amount ≠ none ∧ r.2.deadline ≠ none ∧
    r.2.priority ≠ none ∧ ∀ s ∈ goalReader.texts r.2, (0 : UInt8) ∉ s

/-- The tables hold exactly the records of the ledger. -/
def Holds (db : Db) (L : Ledger) : Prop := Whole db ∧ L = ledgerOf db

theorem holds_empty {db : Db} (h : ledgerOf db = .empty) : Holds db .empty := by
  refine ⟨?_, h.symm⟩
  simp only [ledgerOf, Ledger.empty, Ledger.mk.injEq, List.map_eq_nil_iff] at h
  obtain ⟨he, hb, hs, hg⟩ := h
  refine ⟨?_, ?_, ?_, ?_⟩
  · simp [he]
  · simp [hb]
  · simp [hs]
  · simp [hg]

/-- A GET lists the ledger. -/
theorem listed_eq {db : Db} (h : Whole db) (u : Int32) (k : Collection) :
    listed db u k = .ok ((ledgerOf db).entries u k) := by
  cases k with
  | Expenses =>
    rw [listed_Expenses]
    refine expenseReader.listed_whole Expense.user_id fun r hr => ?_
    exact ⟨rfl, rfl, (h.Expenses r hr).2.2.2⟩
  | Budgets =>
    refine budgetReader.listed_whole Budget.user_id fun r hr => ?_
    obtain ⟨hu, _, ha, ht⟩ := h.Budgets r hr
    refine ⟨?_, ?_, ht⟩
    · obtain ⟨u', hu'⟩ := Option.ne_none_iff_exists'.mp hu
      simp [budgetReader, budgetOf, hu']
    · simp [budgetReader, Option.isSome_iff_ne_none, ha]
  | Savings =>
    refine savingReader.listed_whole SavingTx.user_id fun r hr => ?_
    obtain ⟨hu, ha, _, _, ht⟩ := h.Savings r hr
    refine ⟨?_, ?_, ht⟩
    · obtain ⟨u', hu'⟩ := Option.ne_none_iff_exists'.mp hu
      simp [savingReader, savingOf, hu']
    · simp [savingReader, Option.isSome_iff_ne_none, ha]
  | Goals =>
    refine goalReader.listed_whole Goal.user_id fun r hr => ?_
    obtain ⟨hu, _, hta, hsa, _, _, ht⟩ := h.Goals r hr
    refine ⟨?_, ?_, ht⟩
    · obtain ⟨u', hu'⟩ := Option.ne_none_iff_exists'.mp hu
      simp [goalReader, goalOf, hu']
    · simp [goalReader, Option.isSome_iff_ne_none, hta, hsa]

/-! ## Storing and deleting -/

/-- The statement a form is stored with. -/
def Form.stmt {ms : MySql} (u : Int32) : Form ms → Stmt
  | .expense f => .insertExpense (f.record 0 u)
  | .budget f => .insertBudget (f.record 0 u)
  | .saving f => .insertSaving (f.record 0 u)
  | .goal f => .insertGoal (f.record 0 u)

theorem Form.strings_stmt {ms : MySql} (u : Int32) (f : Form ms) : (f.stmt u).strings = f.texts := by
  cases f <;> rfl

section Store

variable {C : Crypto} {auth : Request → Int32} {ms : MySql} {db db' : Db} {L : Ledger}

theorem postStmt_ok {α : Type} {read : Int32 → RValue → Except Exn α} {q : α → Stmt} {req : Request}
    {x : RValue} {r : α} (ha : auth req ≠ -1) (hb : req.body = some x)
    (hr : read (auth req) x = .ok r) : postStmt auth read q req = some (q r) := by
  simp only [postStmt, if_neg ha, hb, hr]

theorem storing_form {call : Call} {f : Form ms} {x : RValue} (ha : auth call.req ≠ -1)
    (hroute : call.route = f.route) (hb : call.req.body = some x) (hx : f.Body x) :
    storing C auth call = some (f.stmt (auth call.req)) := by
  cases f with
  | expense f =>
    simp only [storing, hroute, Form.route]
    exact postStmt_ok ha hb (readExpenseBody_form hx)
  | budget f =>
    simp only [storing, hroute, Form.route]
    exact postStmt_ok ha hb (readBudgetBody_form hx)
  | saving f =>
    simp only [storing, hroute, Form.route]
    exact postStmt_ok ha hb (readSavingBody_form hx)
  | goal f =>
    simp only [storing, hroute, Form.route]
    exact postStmt_ok ha hb (readGoalBody_form hx)

/-- A stored form is one record more, under an id no other record has. -/
theorem holds_post {f : Form ms} {u : Int32} {rs : Option ResultSet} (hL : Holds db L)
    (h : exec ms db (f.stmt u) = some (db', rs)) :
    ∃ id, id ∉ L.ids f ∧ Holds db' (L.post id u f) := by
  obtain ⟨hw, rfl⟩ := hL
  have hplain := (exec_noNul h).1
  cases f with
  | expense f =>
    obtain ⟨r, t, hr, _, ht, rfl, _⟩ := exec_insertExpense h
    rw [expenseRow_form] at hr
    cases hr
    obtain ⟨hrows, hfresh⟩ := Table.insert_spec ht
    refine ⟨db.Expenses.nextKey, ?_, ⟨Table.forall_insert ht hw.Expenses ?_, hw.Budgets, hw.Savings,
      hw.Goals⟩, ?_⟩
    · simpa [Ledger.ids, ledgerOf, expenseOf] using hfresh
    · refine ⟨Option.some_ne_none _, Option.some_ne_none _, Option.some_ne_none _, ?_⟩
      exact hplain
    · simp [Ledger.post, ledgerOf, hrows, expenseOf, ExpenseForm.record]
  | budget f =>
    obtain ⟨r, t, hr, ht, rfl, _⟩ := exec_insertBudget h
    rw [budgetRow_form] at hr
    cases hr
    obtain ⟨hrows, hfresh⟩ := Table.insert_spec ht
    refine ⟨db.Budgets.nextKey, ?_, ⟨hw.Expenses, Table.forall_insert ht hw.Budgets ?_, hw.Savings,
      hw.Goals⟩, ?_⟩
    · simpa [Ledger.ids, ledgerOf, budgetOf] using hfresh
    · exact ⟨Option.some_ne_none _, Option.some_ne_none _, Option.some_ne_none _, hplain⟩
    · simp [Ledger.post, ledgerOf, hrows, budgetOf, BudgetForm.record]
  | saving f =>
    obtain ⟨r, t, hr, ht, rfl, _⟩ := exec_insertSaving h
    rw [savingRow_form] at hr
    cases hr
    obtain ⟨hrows, hfresh⟩ := Table.insert_spec ht
    refine ⟨db.Savings.nextKey, ?_, ⟨hw.Expenses, hw.Budgets, Table.forall_insert ht hw.Savings ?_,
      hw.Goals⟩, ?_⟩
    · simpa [Ledger.ids, ledgerOf, savingOf] using hfresh
    · exact ⟨Option.some_ne_none _, Option.some_ne_none _, Option.some_ne_none _,
        Option.some_ne_none _, hplain⟩
    · simp [Ledger.post, ledgerOf, hrows, savingOf, SavingForm.record]
  | goal f =>
    obtain ⟨r, t, hr, ht, rfl, _⟩ := exec_insertGoal h
    rw [goalRow_form] at hr
    cases hr
    obtain ⟨hrows, hfresh⟩ := Table.insert_spec ht
    refine ⟨db.Goals.nextKey, ?_, ⟨hw.Expenses, hw.Budgets, hw.Savings,
      Table.forall_insert ht hw.Goals ?_⟩, ?_⟩
    · simpa [Ledger.ids, ledgerOf, goalOf] using hfresh
    · exact ⟨Option.some_ne_none _, Option.some_ne_none _, Option.some_ne_none _,
        Option.some_ne_none _, Option.some_ne_none _, Option.some_ne_none _, hplain⟩
    · simp [Ledger.post, ledgerOf, hrows, goalOf, GoalForm.record]

/-- A deletion takes the record with its id. -/
theorem holds_delete (hL : Holds db L) (id : Int32) :
    Holds { db with Expenses := db.Expenses.delete id }
      { L with Expenses := L.Expenses.filter fun e => e.id != id } := by
  obtain ⟨hw, rfl⟩ := hL
  refine ⟨⟨fun r hr => hw.Expenses r (Table.mem_delete.mp hr).1, hw.Budgets, hw.Savings, hw.Goals⟩, ?_⟩
  simp only [ledgerOf, Table.rows_delete, List.filter_map]
  rfl

end Store

/-! ## The simulation -/

/-- An authenticated request the pages can send. -/
inductive Formed (ms : MySql) (auth : Request → Int32) (call : Call) : Prop
  | post (f : Form ms) (x : RValue) : auth call.req ≠ -1 → call.route = f.route →
      call.req.body = some x → f.Body x → Formed ms auth call
  | get (k : Collection) : auth call.req ≠ -1 → call.route = k.getRoute → Formed ms auth call
  | delete (id : Int32) : auth call.req ≠ -1 → call.route = .deleteExpense id → Formed ms auth call

/-- A GET whose calls do not both succeed has nothing to list. -/
def ReadDone (auth : Request → Int32) (c : Conn Db ResultSet) (call : Call) : Prop :=
  ∀ k, call.route = Collection.getRoute k → (call.fault.query || call.fault.store) = true →
    (ledgerOf c.db).entries (auth call.req) k = []

section Run

variable (C : Crypto) (auth : Request → Int32) (ms : MySql)

/-- At every point of the run the tables hold the ledger of the requests and
answers so far, and every GET so far listed it. -/
def Refined (db : Db) (calls : List Call) : Prop :=
  ∀ xs ys, calls = xs ++ ys → ∃ L, Machine.AbsRun (Ledger.Step ms auth) .empty
    ((server C auth ms).history (.idle db) xs) L ∧
      Holds ((server C auth ms).after (.idle db) xs).db L

/-- Every GET of the run whose calls do not both succeed has nothing to list. -/
def ReadsDone (db : Db) (calls : List Call) : Prop :=
  (server C auth ms).Along (ReadDone auth) (.idle db) calls

variable {C auth ms}

/-- A statement the request stores with, carried out or refused. -/
theorem step_storing (ms : MySql) {c : Conn Db ResultSet} (hc : Idle c) {call : Call} {q : Stmt}
    (hs : storing C auth call = some q) :
    (stored ms call.fault c.db q = none ∧ (server C auth ms).next c call = c ∧
        ((server C auth ms).out c call).code = failCode call.route) ∨
      ∃ db' rs, exec ms c.db q = some (db', rs) ∧ (server C auth ms).next c call = .idle db' ∧
        ((server C auth ms).out c call).code = okCode call.route := by
  have ⟨r, hserve, hcode⟩ : ∃ r, serve C auth ms call (.idle c.db) = (r, _) ∧ _ := serve_storing hs
  rw [hc.out, hc.next, hserve, hs, Option.bind_some]
  cases hst : stored ms call.fault c.db q with
  | none =>
    rw [hst] at hcode
    exact Or.inl ⟨rfl, hc.eq.symm, hcode⟩
  | some db' =>
    rw [hst] at hcode
    obtain ⟨_, rs, he⟩ := stored_eq_some hst
    exact Or.inr ⟨db', rs, he, rfl, hcode⟩

theorem form_route (f : Form ms) : writes f.route = true ∧ okCode f.route = 201 ∧
    failCode f.route = 500 := by
  cases f <;> exact ⟨rfl, rfl, rfl⟩

theorem out_get_failed {c : Conn Db ResultSet} (hc : Idle c) {call : Call} {k : Collection}
    (hroute : call.route = k.getRoute) (ha : auth call.req ≠ -1)
    (hf : (call.fault.query || call.fault.store) = true) :
    ((server C auth ms).out c call).body.entries = [] := by
  rw [hc.out, serve_get hroute ha]
  simp only [hf, if_true]
  rfl

theorem next_get {c : Conn Db ResultSet} (hc : Idle c) {call : Call} {k : Collection}
    (hroute : call.route = k.getRoute) : (server C auth ms).next c call = c := by
  have hs : storing C auth call = none := by
    simp only [storing, hroute]
    cases k <;> rfl
  rw [hc.next, hs]
  exact hc.eq.symm

/-- **One request.** The server's step is a step of the ledger. -/
theorem refines_step : (server C auth ms).Refines (Ledger.Step ms auth)
    (fun c L => Idle c ∧ Holds c.db L)
    (fun c call => Formed ms auth call ∧ ReadDone auth c call) := by
  intro c L call hR hcall
  obtain ⟨hc, hL⟩ := hR
  obtain ⟨hformed, hdone⟩ := hcall
  cases hformed with
  | post f x ha hroute hb hx =>
    obtain ⟨hw, hok, hfail⟩ := form_route f
    rw [← hroute] at hw hok hfail
    rcases step_storing ms hc (storing_form (C := C) ha hroute hb hx) with
      ⟨_, hnext, hcode⟩ | ⟨db', rs, he, hnext, hcode⟩
    · refine ⟨L, .refused hw ?_, ?_⟩
      · rw [hcode, hfail, hok]
        decide
      · rw [hnext]
        exact ⟨hc, hL⟩
    · obtain ⟨id, hid, hL'⟩ := holds_post hL he
      refine ⟨_, .posted f x id hroute hb hx (hcode.trans hok) hid, ?_⟩
      rw [hnext]
      exact ⟨idle_idle db', hL'⟩
  | delete id ha hroute =>
    have hs : storing C auth call = some (.deleteExpense id) := by
      simp only [storing, hroute, if_neg ha]
    rcases step_storing ms hc hs with ⟨_, hnext, hcode⟩ | ⟨db', rs, he, hnext, hcode⟩
    · refine ⟨L, .refused (by rw [hroute]; rfl) ?_, ?_⟩
      · rw [hcode, hroute]
        simp [failCode, okCode]
      · rw [hnext]
        exact ⟨hc, hL⟩
    · rw [exec_deleteExpense] at he
      cases he
      refine ⟨_, .deleted id hroute (by rw [hcode, hroute]; rfl), ?_⟩
      rw [hnext]
      exact ⟨idle_idle _, holds_delete hL id⟩
  | get k ha hroute =>
    refine ⟨L, .listed k hroute ?_, ?_⟩
    · obtain ⟨hw, rfl⟩ := hL
      cases hf : call.fault.query || call.fault.store with
      | true => rw [out_get_failed hc hroute ha hf, hdone k hroute hf]
      | false =>
        rw [hc.out, serve_get hroute ha]
        simp only [hf, Bool.false_eq_true, if_false, listed_eq hw, listing, entries_ofList]
        exact List.Perm.refl _
    · rw [next_get hc hroute]
      exact ⟨hc, hL⟩

theorem getRoute_injective {k k' : Collection} (h : k.getRoute = k'.getRoute) : k = k' := by
  cases k <;> cases k' <;> first | rfl | cases h

/-- A failing read of a user with records is no step of the ledger. -/
theorem readDone_of_refined {db : Db} {xs ys : List Call} {call : Call}
    (ha : auth call.req ≠ -1) (h : Refined C auth ms db (xs ++ call :: ys)) :
    ReadDone auth ((server C auth ms).after (.idle db) xs) call := by
  intro k hroute hf
  have hidle : Idle ((server C auth ms).after (.idle db) xs) := server_idle.after (idle_idle db) xs
  obtain ⟨L, hrun, _, hL⟩ := h (xs ++ [call]) ys (by simp)
  rw [Machine.history_snoc] at hrun
  obtain ⟨L₀, _, hstep⟩ := hrun.snoc_inv
  rw [Machine.after_snoc, next_get hidle hroute] at hL
  -- the only step of the ledger for a GET is to list it
  cases hstep with
  | posted f x id hr =>
    rw [hroute] at hr
    cases k <;> cases f <;> cases hr
  | deleted id hr =>
    rw [hroute] at hr
    cases k <;> cases hr
  | refused hw =>
    rw [hroute] at hw
    cases k <;> cases hw
  | listed k' hr hperm =>
    cases getRoute_injective (hroute.symm.trans hr)
    rw [out_get_failed hidle hroute ha hf, hL] at hperm
    exact hperm.symm.eq_nil

end Run

theorem Formed.acting {ms : MySql} {auth : Request → Int32} {call : Call}
    (h : Formed ms auth call) : auth call.req ≠ -1 := by
  cases h with
  | post f x ha => exact ha
  | get k ha => exact ha
  | delete id ha => exact ha

/-- **The server refines the ledger** over every run from empty tables, exactly
when no failing read hides a record. -/
theorem ledger_refined_iff (C : Crypto) (auth : Request → Int32) (ms : MySql) (db : Db)
    (hempty : ledgerOf db = .empty) (calls : List Call) (hcalls : ∀ call ∈ calls, Formed ms auth call) :
    Refined C auth ms db calls ↔ ReadsDone C auth ms db calls := by
  refine ⟨?_, ?_⟩
  · intro h
    unfold ReadsDone
    rw [Machine.along_iff]
    intro xs call ys he
    subst he
    exact readDone_of_refined (hcalls call (by simp)).acting h
  · intro h xs ys he
    subst he
    have hxs : (server C auth ms).Along (fun c call => Formed ms auth call ∧ ReadDone auth c call)
        (.idle db) xs := by
      rw [Machine.along_and, Machine.along_inputs]
      exact ⟨fun call hc => hcalls call (List.mem_append_left _ hc),
        ((Machine.along_append _ _ _ _ _).mp h).1⟩
    obtain ⟨L, hrun, _, hL⟩ := refines_step.run xs _ _ ⟨idle_idle db, holds_empty hempty⟩ hxs
    exact ⟨L, hrun, hL⟩

/-! ## A run, and a read that fails -/

/-- Lunch for 12.50. -/
def lunchForm : ExpenseForm MySql.plain where
  description := ascii "lunch"
  cents := 1250
  category_id := 1
  expense_date := ascii "2024-05-01"
  type := ascii "expense"
  fits := by decide
  inRange := by decide
  date := by decide
  label := Or.inr rfl

def lunchBody : RValue := .object
  [(ascii "description", jsonString "lunch"), (ascii "amount", .number ⟨false, 12, 5, 1, 0⟩),
    (ascii "category_id", .number ⟨false, 1, 0, 0, 0⟩),
    (ascii "expense_date", jsonString "2024-05-01"), (ascii "type", jsonString "expense")]

theorem lunchForm_body : (Form.expense lunchForm).Body lunchBody := by
  have hvalue : Number.value ⟨false, 12, 5, 1, 0⟩ = ((1250 : ℤ) : ℚ) / 100 := by
    norm_num [Number.value]
  refine ⟨_, _, _, _, _, rfl, ⟨_, rfl⟩, ⟨_, rfl, ?_⟩, ⟨_, rfl, by decide⟩, ⟨_, rfl⟩, ⟨_, rfl⟩⟩
  rw [hvalue]
  rfl

/-- Ann is registered. -/
def annsHome : Db where
  __ := Db.migrated
  users := ⟨[(1, ⟨some (ascii "ann"), some (ascii "ann@x"), ascii "00:00"⟩)], 2, by decide, by decide⟩

def postLunch : Call := ⟨.postExpenses, bearer annToken (some lunchBody), .none⟩

/-- Her list, with or without the query failing. -/
def listLunch (fails : Bool) : Call := ⟨.getExpenses, bearer annToken none, ⟨fails, false⟩⟩

theorem acting_ann (route : Route) (body : Option RValue) (f : Fault) :
    authenticate Crypto.zero (Call.mk route (bearer annToken body) f).req ≠ -1 := by
  rw [Reads.authenticate_ann]
  decide

theorem formed_lunch (fails : Bool) : ∀ call ∈ [postLunch, listLunch fails],
    Formed MySql.plain (authenticate Crypto.zero) call := by
  intro call hcall
  rcases List.mem_cons.mp hcall with rfl | hcall
  · exact .post (.expense lunchForm) lunchBody (acting_ann _ _ _) rfl rfl lunchForm_body
  · rw [List.mem_singleton.mp hcall]
    exact .get .Expenses (acting_ann _ _ _) rfl

/-- A run whose read is carried out refines the ledger. -/
theorem ledger_refined_lunch : Refined Crypto.zero (authenticate Crypto.zero) MySql.plain annsHome
    [postLunch, listLunch false] := by
  refine (ledger_refined_iff Crypto.zero (authenticate Crypto.zero) MySql.plain annsHome rfl
    [postLunch, listLunch false] (formed_lunch false)).mpr ⟨?_, ?_, trivial⟩
  · intro k hroute
    cases k <;> cases hroute
  · intro k _ hf
    cases hf

/-- The posted lunch is answered 201, and a list whose query fails is empty. -/
theorem ledger_hidden_lunch :
    ((server Crypto.zero (authenticate Crypto.zero) MySql.plain).out (.idle annsHome) postLunch).code =
        201 ∧
      ¬ Refined Crypto.zero (authenticate Crypto.zero) MySql.plain annsHome
        [postLunch, listLunch true] := by
  refine ⟨?_, ?_⟩
  · decide +kernel
  · intro h
    have hsplit : Refined Crypto.zero (authenticate Crypto.zero) MySql.plain annsHome
        ([postLunch] ++ listLunch true :: []) := h
    have hdone := readDone_of_refined (acting_ann _ _ _) hsplit .Expenses rfl rfl
    have hsome : ((ledgerOf ((server Crypto.zero (authenticate Crypto.zero) MySql.plain).after
        (.idle annsHome) [postLunch]).db).entries 1 .Expenses).isEmpty = false := by
      decide +kernel
    simp only [Reads.authenticate_ann] at hdone
    rw [hdone] at hsome
    cases hsome

end ExpenseTracker.L4.Refinement
