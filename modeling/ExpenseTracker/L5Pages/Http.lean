import ExpenseTracker.Core.AsyncClient
import ExpenseTracker.L4Service.Tokens

/-!
# What the pages fetch

A request of a page, and what the page takes an answer for. The pages read the
objects of a list by property name; an object that lacks one of an expense's
properties is no row here, and no route sends one.

* `expensesOf_expenseJson`: what a list route writes reads back as its records.
-/
namespace ExpenseTracker.L5.Http

open ExpenseTracker.Core ExpenseTracker.L1.Password
open ExpenseTracker.L2.Schema ExpenseTracker.L2.Statement ExpenseTracker.L2.Server
open ExpenseTracker.L3.Json ExpenseTracker.L3.Routes ExpenseTracker.L3.Serve

/-- What a `fetch` sends. -/
structure Fetch where
  route : Route
  req : Request

def Fetch.call (x : Fetch) (f : Fault) : Call := ⟨x.route, x.req, f⟩

/-- The server handling one. -/
def handled (C : Crypto) (auth : Request → Int32) (ms : MySql) (c : Conn Db ResultSet) (x : Fetch)
    (f : Fault) : Response × Conn Db ResultSet :=
  serve C auth ms (x.call f) c

/-- Between two requests of a page there is nothing to fetch. -/
theorem idle_next {S A K : Type} {P : AsyncClient S A K Fetch Response} {C : Crypto}
    {auth : Request → Int32} {ms : MySql} {w w' : World S K Fetch (Conn Db ResultSet) Response}
    {e : Event A Fault} (h : AsyncClient.Happens P (handled C auth ms) w e w')
    (hw : Idle w.server) : Idle w'.server := by
  cases h with
  | serve n f k q hn => exact server_idle w.server (q.call f) hw
  | _ => exact hw

/-- `res.ok` -/
def ok (res : Response) : Bool := 200 ≤ res.code && res.code < 300

theorem ok_ne_401 {res : Response} (h : ok res = true) : res.code ≠ 401 := by
  unfold ok at h
  simp at h
  omega

/-- An id that a condition takes for true: neither `null` nor 0. -/
def truthy (id : Option Int32) : Option Int32 := id.filter (· != 0)

/-- A property of a decoded object. -/
def prop (v : WValue) (key : String) : Option WValue :=
  match v with
  | .object o => (o.find? fun p => p.1 == ascii key).map Prod.snd
  | _ => none

def intProp (v : WValue) (key : String) : Option Int32 :=
  match prop v key with
  | some (.int i) => some i
  | _ => none

def doubleProp (v : WValue) (key : String) : Option Double :=
  match prop v key with
  | some (.double x) => some x
  | _ => none

def stringProp (v : WValue) (key : String) : Option Bytes :=
  match prop v key with
  | some (.string s) => some s
  | _ => none

/-- The record an object is. -/
def expenseOfJson (v : WValue) : Option Expense := do
  let id ← intProp v "id"
  let user_id ← intProp v "user_id"
  let category_id ← intProp v "category_id"
  let amount ← doubleProp v "amount"
  let description ← stringProp v "description"
  let expense_date ← stringProp v "expense_date"
  let type ← stringProp v "type"
  return { id, user_id, category_id, amount, description, expense_date, type }

/-- The records of `Array.isArray(data) ? data : []`. -/
def expensesOf (body : Body) : List Expense := body.entries.filterMap expenseOfJson

theorem expenseOfJson_expenseJson (e : Expense) : expenseOfJson (expenseJson e) = some e := rfl

theorem expensesOf_expenseJson (l : List Expense) :
    expensesOf (.json (.ofList (l.map expenseJson))) = l := by
  unfold expensesOf
  rw [entries_ofList, List.filterMap_map]
  have h : expenseOfJson ∘ expenseJson = some := funext expenseOfJson_expenseJson
  rw [h, List.filterMap_some]

/-- User 1 has two expenses. -/
def twoDb : Db where
  __ := Db.migrated
  Expenses := ⟨[(1, ⟨1, some 1, 1250, some (ascii "lunch"), ascii "2024-05-01", none⟩),
    (2, ⟨1, some 2, 300, some (ascii "bus"), ascii "2024-05-02", none⟩)], 3, by decide, by decide⟩

end ExpenseTracker.L5.Http
