import ExpenseTracker.Core.Machine
import ExpenseTracker.L1Encoding.Jwt
import ExpenseTracker.L3Server.DbManager

/-!
# The routes

The handlers of `main.cpp`, each a program over the client library, and the
server that takes one request after another on the shared connection. Who the
acting user is, the handlers learn from `auth` alone; `authenticate` is the
one the program uses.

* `handle`, `serve`, `server`: the handler of a route, a request answered, and the
  machine of whole runs. An exception that leaves a handler is answered 500.
* `readExpenseBody` and its siblings: a record from a request body, with the
  handler's defaults and exceptions.
-/
namespace ExpenseTracker.L3.Routes

open ExpenseTracker.Core ExpenseTracker.L1.Jwt ExpenseTracker.L1.Password
open ExpenseTracker.L2.Schema ExpenseTracker.L2.Statement ExpenseTracker.L2.Server
open ExpenseTracker.L3.Json ExpenseTracker.L3.DbManager

/-! ## Requests and responses -/

/-- `body` is what `crow::json::load` makes of the body, `none` when it is no JSON. -/
structure Request where
  headers : List (Bytes × Bytes)
  body : Option RValue

structure Response where
  code : ℕ
  body : Body

/-- `crow::response(code, "...")` -/
def respond (code : ℕ) (s : String) : Response := ⟨code, .text (ascii s)⟩

def toLower (b : UInt8) : UInt8 := if 65 ≤ b ∧ b ≤ 90 then b + 32 else b

/-- Header names compare without case. -/
def headersFind (h : List (Bytes × Bytes)) (name : Bytes) : Option Bytes :=
  (h.find? fun p => p.1.map toLower == name.map toLower).map Prod.snd

/-- mirrors src/src/main.cpp:8-17 -/
def authenticate (C : Crypto) (req : Request) : Int32 :=
  match headersFind req.headers (ascii "Authorization") with
  | none => -1
  | some auth =>
    if substr auth 0 7 = ascii "Bearer " then verifyJWT C (substrFrom auth 7) else -1

/-- A route with the path argument, or with what the handler takes from the
random source and the clock. -/
inductive Route where
  | register (salt : Salt)
  | login (now : ℕ)
  | postExpenses
  | getExpenses
  | deleteExpense (id : Int32)
  | postBudgets
  | getBudgets
  | postSavings
  | getSavings
  | postGoals
  | getGoals
  deriving DecidableEq

/-- The nine routes marked `(Protected)`. -/
def Route.protected : Route → Bool
  | register _ | login _ => false
  | _ => true

/-! ## Reading a body -/

/-- Email, display name and password.
mirrors src/src/main.cpp:54-56 -/
def readRegisterBody (x : RValue) : Except Exn (Bytes × Bytes × Bytes) := do
  let email ← x.field "email" RValue.s
  let display_name ← x.field "displayName" RValue.s
  let password ← x.field "password" RValue.s
  return (email, display_name, password)

/-- Email and password.
mirrors src/src/main.cpp:68-69 -/
def readLoginBody (x : RValue) : Except Exn (Bytes × Bytes) := do
  let email ← x.field "email" RValue.s
  let password ← x.field "password" RValue.s
  return (email, password)

/-- mirrors src/src/main.cpp:94-102 -/
def readExpenseBody (user_id : Int32) (x : RValue) : Except Exn Expense := do
  let category_id ← x.fieldOr "category_id" RValue.i 0
  let amount ← x.field "amount" RValue.d
  let description ← x.field "description" RValue.s
  let expense_date ← x.field "expense_date" RValue.s
  let type ← x.fieldOr "type" RValue.s (ascii "expense")
  return { id := 0, user_id, category_id := Int32.ofInt category_id, amount, description,
           expense_date, type }

/-- mirrors src/src/main.cpp:147-150 -/
def readBudgetBody (user_id : Int32) (x : RValue) : Except Exn Budget := do
  let category_name ← x.field "category_name" RValue.s
  let target_amount ← x.field "target_amount" RValue.d
  return { id := 0, user_id, category_name, target_amount }

/-- mirrors src/src/main.cpp:181-185 -/
def readSavingBody (user_id : Int32) (x : RValue) : Except Exn SavingTx := do
  let amount ← x.field "amount" RValue.d
  let description ← x.field "description" RValue.s
  let transaction_date ← x.field "transaction_date" RValue.s
  return { id := 0, user_id, amount, description, transaction_date }

/-- mirrors src/src/main.cpp:217-226 -/
def readGoalBody (user_id : Int32) (x : RValue) : Except Exn Goal := do
  let title ← x.field "title" RValue.s
  let target_amount ← x.field "target_amount" RValue.d
  let saved_amount ← x.fieldOr "saved_amount" RValue.d Double.zero
  let deadline ← x.field "deadline" RValue.s
  let priority ← x.fieldOr "priority" RValue.s (ascii "Medium")
  return { id := 0, user_id, title, target_amount, saved_amount, deadline, priority }

/-! ## Writing a list -/

/-- mirrors src/src/main.cpp:118-124 -/
def expenseJson (e : Expense) : WValue := .object
  [(ascii "id", .int e.id), (ascii "user_id", .int e.user_id),
    (ascii "category_id", .int e.category_id), (ascii "amount", .double e.amount),
    (ascii "description", .string e.description), (ascii "expense_date", .string e.expense_date),
    (ascii "type", .string e.type)]

/-- mirrors src/src/main.cpp:165-167 -/
def budgetJson (b : Budget) : WValue := .object
  [(ascii "id", .int b.id), (ascii "category_name", .string b.category_name),
    (ascii "target_amount", .double b.target_amount)]

/-- mirrors src/src/main.cpp:200-203 -/
def savingJson (s : SavingTx) : WValue := .object
  [(ascii "id", .int s.id), (ascii "amount", .double s.amount),
    (ascii "description", .string s.description),
    (ascii "transaction_date", .string s.transaction_date)]

/-- mirrors src/src/main.cpp:241-246 -/
def goalJson (g : Goal) : WValue := .object
  [(ascii "id", .int g.id), (ascii "title", .string g.title),
    (ascii "target_amount", .double g.target_amount),
    (ascii "saved_amount", .double g.saved_amount), (ascii "deadline", .string g.deadline),
    (ascii "priority", .string g.priority)]

/-! ## Handlers -/

abbrev Handler := Op Response

/-- `int user_id = authenticate(req); if (user_id == -1) return 401;` -/
def protect (auth : Request → Int32) (req : Request) (k : Int32 → Handler) : Handler :=
  let user_id := auth req
  if user_id = -1 then return respond 401 "Unauthorized" else k user_id

/-- `auto x = crow::json::load(req.body); if (!x) return 400;` -/
def load (req : Request) (k : RValue → Handler) : Handler :=
  match req.body with
  | none => return respond 400 "Invalid JSON"
  | some x => k x

/-- The body of the four POST routes: read the record, store it, answer. -/
def postRecord {α : Type} (auth : Request → Int32) (req : Request)
    (read : Int32 → RValue → Except Exn α) (add : α → Op Bool) (ok fail : String) : Handler :=
  protect auth req fun user_id => load req fun x => do
    let r ← Prog.lift (read user_id x)
    let done ← add r
    if done then return respond 201 ok else return respond 500 fail

/-- The body of the four GET routes: list the user's records. -/
def getList {α : Type} (auth : Request → Int32) (req : Request) (list : Int32 → Op (List α))
    (json : α → WValue) : Handler :=
  protect auth req fun user_id => do
    let l ← list user_id
    return ⟨200, .json (.ofList (l.map json))⟩

variable (C : Crypto) (auth : Request → Int32)

/-- mirrors src/src/main.cpp:51-63 -/
def postRegister (salt : Salt) (req : Request) : Handler :=
  load req fun x => do
    let (email, display_name, password) ← Prog.lift (readRegisterBody x)
    let hash := hashPassword C salt password
    let done ← DbManager.registerUser email display_name hash
    if done then return respond 201 "User registered"
    else return respond 400 "Email might already exist"

/-- mirrors src/src/main.cpp:65-83 -/
def postLogin (now : ℕ) (req : Request) : Handler :=
  load req fun x => do
    let (email, password) ← Prog.lift (readLoginBody x)
    let (hash, user_id, display_name) ← DbManager.getPasswordHash email (-1) []
    if hash ≠ [] ∧ verifyPassword C password hash = true then
      let token := generateJWT C user_id display_name now
      return ⟨200, .json (.object
        [(ascii "token", .string token), (ascii "username", .string display_name)])⟩
    else return respond 401 "Invalid credentials"

/-- mirrors src/src/main.cpp:86-106 -/
def postExpenses (req : Request) : Handler :=
  postRecord auth req readExpenseBody DbManager.addExpense "Expense added successfully"
    "Failed to add expense"

/-- mirrors src/src/main.cpp:108-128 -/
def getExpenses (req : Request) : Handler := getList auth req DbManager.getExpenses expenseJson

/-- The owner of the row is not looked at.
mirrors src/src/main.cpp:131-137 -/
def deleteExpense (id : Int32) (req : Request) : Handler :=
  protect auth req fun _ => do
    let done ← DbManager.deleteExpense id
    if done then return respond 200 "Expense deleted properly"
    else return respond 500 "Failed to delete expense"

/-- mirrors src/src/main.cpp:140-154 -/
def postBudgets (req : Request) : Handler :=
  postRecord auth req readBudgetBody DbManager.addBudget "Budget created" "Failed to create budget"

/-- mirrors src/src/main.cpp:157-171 -/
def getBudgets (req : Request) : Handler := getList auth req DbManager.getBudgets budgetJson

/-- mirrors src/src/main.cpp:174-189 -/
def postSavings (req : Request) : Handler :=
  postRecord auth req readSavingBody DbManager.addSavingTx "Saving logged" "Failed to log saving"

/-- mirrors src/src/main.cpp:192-207 -/
def getSavings (req : Request) : Handler := getList auth req DbManager.getSavingTx savingJson

/-- mirrors src/src/main.cpp:210-230 -/
def postGoals (req : Request) : Handler :=
  postRecord auth req readGoalBody DbManager.addGoal "Goal logged" "Failed to log goal"

/-- mirrors src/src/main.cpp:233-250 -/
def getGoals (req : Request) : Handler := getList auth req DbManager.getGoals goalJson

def handle : Route → Request → Handler
  | .register salt => postRegister C salt
  | .login now => postLogin C now
  | .postExpenses => postExpenses auth
  | .getExpenses => getExpenses auth
  | .deleteExpense id => deleteExpense auth id
  | .postBudgets => postBudgets auth
  | .getBudgets => getBudgets auth
  | .postSavings => postSavings auth
  | .getSavings => getSavings auth
  | .postGoals => postGoals auth
  | .getGoals => getGoals auth

/-! ## The server -/

/-- A request with the calls of its handler that fail. -/
structure Call where
  route : Route
  req : Request
  fault : Fault

variable (ms : MySql)

/-- An uncaught exception is answered 500 with an empty body.
mirrors src/include/Crow/include/crow/routing.h:1808-1830 -/
def answer : Except Exn Response → Response
  | .ok r => r
  | .error _ => ⟨500, .text []⟩

def serve (call : Call) (c : Conn Db ResultSet) : Response × Conn Db ResultSet :=
  let r := (handle C auth call.route call.req).run (exec ms) call.fault c
  (answer r.1, r.2)

/-- The server, one request at a time. -/
def server : Machine (Conn Db ResultSet) Call Response where
  step c call := serve C auth ms call c

end ExpenseTracker.L3.Routes
