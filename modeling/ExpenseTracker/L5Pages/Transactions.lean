import ExpenseTracker.Core.AsyncClient
import ExpenseTracker.L5Pages.Http

/-!
# The Transactions page

The page as a client of the server, in the manner of the Dashboard. Its selection is
a list of ids, kept apart from the rows and from the filter. A batch of deletions is
one `Promise.all`: the page remembers how many answers each one still waits for, and
a failed one is forgotten.

* `page`: the component as a client; `mount`: its first render.
* `filteredExpenses`, `ticked`: the rows on the screen, and those with a ticked box.
-/
namespace ExpenseTracker.L5.Transactions

open ExpenseTracker.Core ExpenseTracker.L2.Statement
open ExpenseTracker.L3.Json ExpenseTracker.L3.Routes
open ExpenseTracker.L4.Tokens ExpenseTracker.L5.Http

inductive Filter where
  | all
  | income
  | expense
  deriving DecidableEq

/-- `filter === 'all' || exp.type === filter` -/
def Filter.passes (filter : Filter) (exp : Expense) : Bool :=
  match filter with
  | .all => true
  | .income => exp.type == ascii "income"
  | .expense => exp.type == ascii "expense"

/-- mirrors src/frontend/src/pages/Transactions.jsx:21-26. `token` is the entry of the
local storage, `batches` the answers each `Promise.all` waits for, and `left` says
that the page has been navigated away from. -/
structure State where
  expenses : List Expense
  filter : Filter
  selectedIds : List Int32
  deleteModalOpen : Bool
  pendingDeleteId : Option Int32
  toast : Option (String × String)
  token : Option Bytes
  batches : List (ℕ × ℕ)
  nextBatch : ℕ
  left : Bool

/-- What the user does, another page writing the token, and the timer of a toast. -/
inductive Action where
  | setFilter (filter : Filter)
  | headerCheck (checked : Bool)
  | check (id : Int32) (checked : Bool)
  | handleSingleDelete (id : Int32)
  | handleBatchDelete
  | cancel
  | executeDelete
  | storeToken (token : Option Bytes)
  | hideToast

/-- The `fetch` whose answer is awaited; `single` with what its callback has captured. -/
inductive Cont where
  | expenses
  | single (pendingDeleteId : Int32) (selectedIds : List Int32)
  | batch (b : ℕ)
  deriving DecidableEq

/-- A callback: what it does to the state, and the requests it sends. -/
abbrev Effect := State × List (Cont × Fetch)

namespace State

/-- A `set...` of a component that may be gone. -/
def set (s : State) (f : State → State) : State := if s.left then s else f s

/-- The message is gone after its timer.
mirrors src/frontend/src/pages/Transactions.jsx:31-34 -/
def showToast (s : State) (message type : String) : State :=
  s.set fun s => { s with toast := some (message, type) }

/-- mirrors src/frontend/src/pages/Transactions.jsx:36-43 -/
def checkAuth (s : State) : State :=
  match s.token with
  | none => { s with left := true }
  | some _ => s

/-- mirrors src/frontend/src/pages/Transactions.jsx:93 -/
def filteredExpenses (s : State) : List Expense := s.expenses.filter s.filter.passes

/-- The ids of the rows on the screen. -/
def displayed (s : State) : List Int32 := s.filteredExpenses.map Expense.id

/-- Those whose box is ticked.
mirrors src/frontend/src/pages/Transactions.jsx:144 -/
def ticked (s : State) : List Int32 := s.displayed.filter fun id => s.selectedIds.contains id

end State

/-- The controls on the screen.
mirrors src/frontend/src/pages/Transactions.jsx:116-123,132,141-158,170-182 -/
def shows (s : State) : Action → Bool
  | .setFilter _ | .headerCheck _ => !s.left
  | .check id _ | .handleSingleDelete id => !s.left && s.displayed.contains id
  | .handleBatchDelete => !s.left && !s.selectedIds.isEmpty
  | .cancel | .executeDelete => !s.left && s.deleteModalOpen
  | .storeToken _ => true
  | .hideToast => !s.left

/-- `Bearer ${token}`, also of a token that is `null`. -/
def authorized (token : Option Bytes) : Request := bearer (token.getD (ascii "null")) none

/-- mirrors src/frontend/src/pages/Transactions.jsx:45-52 -/
def fetchExpenses (s : State) : Effect :=
  match s.token with
  | none => (s.checkAuth, [])
  | some _ => (s, [(.expenses, ⟨.getExpenses, authorized s.token⟩)])

/-- What both kinds of deletion end with.
mirrors src/frontend/src/pages/Transactions.jsx:87-89 -/
def deleted (s : State) : Effect :=
  let r := fetchExpenses s
  ((r.1.set fun s => { s with deleteModalOpen := false }).showToast "Transaction(s) deleted"
    "success", r.2)

/-- mirrors src/frontend/src/pages/Transactions.jsx:77-86 -/
def executeDelete (s : State) : Effect :=
  let s' := s.checkAuth
  match truthy s.pendingDeleteId with
  | some id => (s', [(.single id s.selectedIds, ⟨.deleteExpense id, authorized s.token⟩)])
  | none =>
    -- a `Promise.all` of nothing is there at once
    if s.selectedIds = [] then deleted (s'.set fun s => { s with selectedIds := [] })
    else
      ({ s' with batches := (s.nextBatch, s.selectedIds.length) :: s.batches
                 nextBatch := s.nextBatch + 1 },
        s.selectedIds.map fun id =>
          (.batch s.nextBatch, ⟨.deleteExpense id, authorized s.token⟩))

/-- The callbacks, up to their first `await`.
mirrors src/frontend/src/pages/Transactions.jsx:67-86,116-118,132,144,181 -/
def handler (s : State) : Action → Effect
  | .setFilter filter => ({ s with filter := filter }, [])
  | .headerCheck checked => ({ s with selectedIds := if checked then s.displayed else [] }, [])
  | .check id checked =>
    ({ s with selectedIds :=
        if checked then s.selectedIds ++ [id] else s.selectedIds.filter (· != id) }, [])
  | .handleSingleDelete id => ({ s with pendingDeleteId := some id, deleteModalOpen := true }, [])
  | .handleBatchDelete => ({ s with pendingDeleteId := none, deleteModalOpen := true }, [])
  | .cancel => ({ s with deleteModalOpen := false }, [])
  | .executeDelete => executeDelete s
  | .storeToken token => ({ s with token := token }, [])
  | .hideToast => ({ s with toast := none }, [])

def act (s : State) (a : Action) : Effect := if shows s a then handler s a else (s, [])

/-- Behind the `await fetch` of `fetchExpenses`.
mirrors src/frontend/src/pages/Transactions.jsx:53-60 -/
def gotExpenses (s : State) : Option Response → Effect
  | none => (s, [])
  | some res =>
    if res.code = 401 then ({ s with left := true }, [])
    else if ok res then
      match res.body with
      | .text _ => (s, [])
      | .json _ => (s.set fun s => { s with expenses := (expensesOf res.body).reverse }, [])
    else (s, [])

/-- Behind the `await` of a single deletion: the selection is the captured one without
the deleted id, whatever was ticked since.
mirrors src/frontend/src/pages/Transactions.jsx:82-90 -/
def gotSingle (s : State) (pendingDeleteId : Int32) (selectedIds : List Int32) :
    Option Response → Effect
  | none => (s, [])
  | some _ => deleted (s.set fun s =>
      { s with selectedIds := selectedIds.filter (· != pendingDeleteId) })

/-- An answer for a `Promise.all`; the last one runs the code behind it.
mirrors src/frontend/src/pages/Transactions.jsx:84-90 -/
def gotBatch (s : State) (b : ℕ) (res : Option Response) : Effect :=
  match s.batches.lookup b with
  | none => (s, [])
  | some n =>
    let others := s.batches.filter fun p => p.1 != b
    match res with
    | none => ({ s with batches := others }, [])
    | some _ =>
      if n ≤ 1 then
        deleted (({ s with batches := others } : State).set fun s => { s with selectedIds := [] })
      else ({ s with batches := (b, n - 1) :: others }, [])

def resume (s : State) : Cont → Option Response → Effect
  | .expenses => gotExpenses s
  | .single pendingDeleteId selectedIds => gotSingle s pendingDeleteId selectedIds
  | .batch b => gotBatch s b

def page : AsyncClient State Action Cont Fetch Response := ⟨act, resume⟩

def initial (token : Option Bytes) : State where
  expenses := []
  filter := .all
  selectedIds := []
  deleteModalOpen := false
  pendingDeleteId := none
  toast := none
  token := token
  batches := []
  nextBatch := 0
  left := false

/-- The first render and its effect.
mirrors src/frontend/src/pages/Transactions.jsx:63-65 -/
def mount (token : Option Bytes) : Effect := fetchExpenses (initial token)

end ExpenseTracker.L5.Transactions
