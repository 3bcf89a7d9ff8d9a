import ExpenseTracker.Core.AsyncClient
import ExpenseTracker.L5Pages.Http
import Mathlib.Data.List.Sort

/-!
# The Dashboard

The page of a signed-in user as a client of the server. Its state variables are
those of the component; a handler that awaits a `fetch` ends there, and a `Cont`
names the code behind the `await`. A callback reads the state of the last render,
which is the current one whenever the user acts.

A control that is not on the screen takes no action (`shows`), and once the page has
been left no `set...` changes anything, but what was awaited still runs.

* `page`: the component as a client; `mount`: its first render.
-/
namespace ExpenseTracker.L5.Dashboard

open ExpenseTracker.Core
open ExpenseTracker.L2.Schema ExpenseTracker.L2.Statement
open ExpenseTracker.L3.Json ExpenseTracker.L3.Routes
open ExpenseTracker.L4.Tokens ExpenseTracker.L5.Http

/-! ## The order of the rows -/

/-- `new Date(s)` of a date `YYYY-MM-DD`, in days; without one it is no date.
Only the order of two dates counts. -/
def dateOf (s : Bytes) : Option ℕ :=
  match s with
  | [y1, y2, y3, y4, 45, m1, m2, 45, d1, d2] =>
    if isDate s then
      some (readNat [y1, y2, y3, y4] * 10000 + readNat [m1, m2] * 100 + readNat [d1, d2])
    else none
  | _ => none

/-- `new Date(b.expense_date) - new Date(a.expense_date)` is not positive: `a` may stay
before `b`. A difference that is no number counts as none. -/
def newest (a b : Expense) : Prop :=
  match dateOf a.expense_date, dateOf b.expense_date with
  | some x, some y => y ≤ x
  | _, _ => True

instance : DecidableRel newest := fun a b => by
  unfold newest
  split <;> infer_instance

/-- `processedData.sort(...)`, which is stable. -/
def processed (data : List Expense) : List Expense := data.insertionSort newest

/-! ## The page -/

/-- The fields of the Add Expense form. -/
structure Form where
  description : Bytes
  amount : Bytes
  category : Bytes
  date : Bytes
  type : Bytes

/-- mirrors src/frontend/src/pages/Dashboard.jsx:17-35. `pendingDeleteId` is `null`
as `none`; `left` says that the page has been navigated away from. -/
structure State where
  expenses : List Expense
  isModalOpen : Bool
  deleteModalOpen : Bool
  pendingDeleteId : Option Int32
  toast : Option (String × String)
  savingsAmount : Double
  form : Form
  left : Bool

def initial : State where
  expenses := []
  isModalOpen := false
  deleteModalOpen := false
  pendingDeleteId := none
  toast := none
  savingsAmount := .zero
  form := ⟨[], [], ascii "1", [], ascii "expense"⟩
  left := false

/-- What the user does, and the timer of a toast. -/
inductive Action where
  | openModal
  | closeModal
  | edit (form : Form)
  | handleAddExpense
  | confirmDelete (id : Int32)
  | cancelDelete
  | executeDelete
  | hideToast

/-- The `fetch` whose answer is awaited. -/
inductive Cont where
  | expenses
  | savings
  | added
  | deleted
  deriving DecidableEq

/-- A callback: what it does to the state, and the requests it sends. -/
abbrev Effect := State × List (Cont × Fetch)

namespace State

/-- A `set...` of a component that may be gone. -/
def set (s : State) (f : State → State) : State := if s.left then s else f s

/-- The message is gone after its timer.
mirrors src/frontend/src/pages/Dashboard.jsx:37-40 -/
def showToast (s : State) (message type : String) : State :=
  s.set fun s => { s with toast := some (message, type) }

/-- mirrors src/frontend/src/pages/Dashboard.jsx:50-53 -/
def handleUnauthorized (s : State) : State := { s with left := true }

end State

/-- The controls on the screen.
mirrors src/frontend/src/pages/Dashboard.jsx:217,333,352-377 -/
def shows (s : State) : Action → Bool
  | .openModal => !s.left
  | .closeModal | .edit _ | .handleAddExpense => !s.left && s.isModalOpen
  | .confirmDelete id => !s.left && (s.expenses.map Expense.id).contains id
  | .cancelDelete | .executeDelete => !s.left && s.deleteModalOpen
  | .hideToast => !s.left

variable (token : Bytes) (add : Double → Double → Double) (stringify : Form → RValue)

/-- Up to its first `await`.
mirrors src/frontend/src/pages/Dashboard.jsx:57 -/
def fetchExpenses : List (Cont × Fetch) := [(.expenses, ⟨.getExpenses, bearer token none⟩)]

/-- The callbacks, up to their first `await`. `add` is the addition of doubles and
`stringify` what the server reads in the JSON text of the form.
mirrors src/frontend/src/pages/Dashboard.jsx:80-93,111-124,217,352-381 -/
def handler (s : State) : Action → Effect
  | .openModal => ({ s with isModalOpen := true }, [])
  | .closeModal => ({ s with isModalOpen := false }, [])
  | .edit form => ({ s with form := form }, [])
  | .handleAddExpense =>
    (s, [(.added, ⟨.postExpenses, bearer token (some (stringify s.form))⟩)])
  | .confirmDelete id => ({ s with pendingDeleteId := some id, deleteModalOpen := true }, [])
  | .cancelDelete => ({ s with deleteModalOpen := false }, [])
  | .executeDelete =>
    let s' := { s with deleteModalOpen := false }
    match truthy s.pendingDeleteId with
    | none => (s', [])
    | some id => (s', [(.deleted, ⟨.deleteExpense id, bearer token none⟩)])
  | .hideToast => ({ s with toast := none }, [])

def act (s : State) (a : Action) : Effect :=
  if shows s a then handler token stringify s a else (s, [])

/-- Behind `await fetch(API_URL)` in `fetchExpenses`.
mirrors src/frontend/src/pages/Dashboard.jsx:57-77 -/
def gotExpenses (s : State) : Option Response → Effect
  | none => (s.showToast "Failed to connect to the server." "error", [])
  | some res =>
    if res.code = 401 then (s.handleUnauthorized, [])
    else if ok res then
      match res.body with
      | .text _ => (s.showToast "Failed to connect to the server." "error", [])
      | .json _ =>
        (s.set fun s => { s with expenses := processed (expensesOf res.body) },
          [(.savings, ⟨.getSavings, bearer token none⟩)])
    else (s.showToast "Failed to connect to the server." "error", [])

/-- Behind `await fetch(API_SAVINGS)`.
mirrors src/frontend/src/pages/Dashboard.jsx:68-77 -/
def gotSavings (s : State) : Option Response → Effect
  | none => (s.showToast "Failed to connect to the server." "error", [])
  | some res =>
    if ok res then
      match res.body with
      | .text _ => (s.showToast "Failed to connect to the server." "error", [])
      | .json _ =>
        let sList := res.body.entries.filterMap (doubleProp · "amount")
        (s.set fun s => { s with savingsAmount := sList.foldl add .zero }, [])
    else (s, [])

/-- Behind the `await` of `handleAddExpense`.
mirrors src/frontend/src/pages/Dashboard.jsx:95-108 -/
def gotAdded (s : State) : Option Response → Effect
  | none => (s.showToast "Network error. Could not add expense." "error", [])
  | some res =>
    if res.code = 401 then (s.handleUnauthorized, [])
    else if ok res then
      let s' := s.set fun s =>
        { s with isModalOpen := false
                 form := { s.form with description := [], amount := [], date := [] } }
      (s'.showToast "Expense added successfully!" "success", fetchExpenses token)
    else (s.showToast "Failed to add expense." "error", [])

/-- Behind the `await` of `executeDelete`, with its `finally`.
mirrors src/frontend/src/pages/Dashboard.jsx:125-137 -/
def gotDeleted (s : State) (res : Option Response) : Effect :=
  let r : Effect :=
    match res with
    | none => (s, [])
    | some res =>
      if res.code = 401 then (s.handleUnauthorized, [])
      else if ok res then (s.showToast "Expense removed." "success", fetchExpenses token)
      else (s.showToast "Failed to delete." "error", [])
  (r.1.set fun s => { s with pendingDeleteId := none }, r.2)

def resume (s : State) : Cont → Option Response → Effect
  | .expenses => gotExpenses token s
  | .savings => gotSavings add s
  | .added => gotAdded token s
  | .deleted => gotDeleted token s

def page : AsyncClient State Action Cont Fetch Response := ⟨act token stringify, resume token add⟩

/-- The first render and its effect.
mirrors src/frontend/src/pages/Dashboard.jsx:45-48 -/
def mount (token : Option Bytes) : Effect :=
  match token with
  | none => ({ initial with left := true }, [])
  | some token => (initial, fetchExpenses token)

end ExpenseTracker.L5.Dashboard
