import ExpenseTracker.L4Service.Wire
import ExpenseTracker.L5Pages.Http

/-!
# What the pages read of a text

`res.json()` parses the text of an answer, and the pages read the objects of the
list by property name. They find what the server wrote, whatever the order of the
members: names differ within an object (`Keyed`), so a name is one property.

The pages use numbers as doubles throughout. An id is an integer of 32 bits and is
the same as a double; an amount is the double the server wrote, unless it was cut on
the way, which amounts of money never are.

* `prop_shows`: a property that was written is found.
* `expensesOf_shows`: the records of a list of expenses.
* `amountsOf_shows`, `budgetsOf_shows`: what is read of savings and budgets.
* `received`: after any run of the pages' requests the list of the ledger is read.
-/
namespace ExpenseTracker.L5.Parsed

open ExpenseTracker.Core ExpenseTracker.Core.JsonText ExpenseTracker.L1.Password
open ExpenseTracker.L2.Schema ExpenseTracker.L2.Statement ExpenseTracker.L2.Server
open ExpenseTracker.L3.Json ExpenseTracker.L3.Routes ExpenseTracker.L3.Serve ExpenseTracker.L3.Program
open ExpenseTracker.L3.CrowDump ExpenseTracker.L3.Answers
open ExpenseTracker.L4.Refinement ExpenseTracker.L4.Wire

/-! ## Properties -/

/-- A property of an object; of two members with one name the last one counts. -/
def prop (V : Value) (key : String) : Option Value :=
  match V with
  | .object members => (members.reverse.find? fun p => p.1 == ascii key).map Prod.snd
  | _ => none

/-- An integer of 32 bits. -/
def intProp (V : Value) (key : String) : Option Int32 :=
  match prop V key with
  | some (.number q) =>
    let i := Int32.ofInt (nearest q).num
    if nearest q = i.toInt then some i else none
  | _ => none

/-- A number, as JavaScript has it. -/
def doubleProp (V : Value) (key : String) : Option Double :=
  match prop V key with
  | some (.number q) => some (.ofRat q)
  | _ => none

def stringProp (V : Value) (key : String) : Option Bytes :=
  match prop V key with
  | some (.string s) => some s
  | _ => none

/-- Where names differ it does not matter from which end one looks. -/
theorem find_name {α : Type} {l : List (Bytes × α)} (hn : (l.map Prod.fst).Nodup) {k : Bytes}
    {x : α} (h : (k, x) ∈ l) : (l.find? fun p => p.1 == k) = some (k, x) := by
  induction l with
  | nil => cases h
  | cons p l ih =>
    obtain ⟨hfresh, hnodup⟩ := List.nodup_cons.mp hn
    rw [List.find?_cons]
    rcases List.mem_cons.mp h with rfl | hmem
    · simp
    · have hne : (p.1 == k) = false := by
        refine beq_eq_false_iff_ne.mpr fun heq => hfresh ?_
        rw [heq]
        exact List.mem_map_of_mem hmem
      simp only [hne, ih hnodup hmem]

theorem showsMembers_mem {o : List (Bytes × WValue)} {ms : List (Bytes × Value)}
    (h : ShowsMembers o ms) {k : Bytes} {v : WValue} (hv : (k, v) ∈ o) :
    ∃ V, (k, V) ∈ ms ∧ Shows v V := by
  induction o generalizing ms with
  | nil => cases hv
  | cons p o ih =>
    obtain ⟨V, ms', rfl, hs, ho⟩ := h
    rcases List.mem_cons.mp hv with heq | hmem
    · cases heq
      exact ⟨V, List.mem_cons_self, hs⟩
    · obtain ⟨V', hV', hs'⟩ := ih ho hmem
      exact ⟨V', List.mem_cons_of_mem _ hV', hs'⟩

section Shown

variable {v w : WValue} {V : Value} (hk : Keyed v) (hs : Shows v V) (key : String)

include hk hs

/-- A property that was written is found. -/
theorem prop_shows (h : Http.prop v key = some w) : ∃ W, prop V key = some W ∧ Shows w W := by
  cases v with
  | object o =>
    obtain ⟨ms, ms', rfl, hperm, hms⟩ := hs
    obtain ⟨p, hfind, rfl⟩ := Option.map_eq_some_iff.mp h
    have hname : p.1 = ascii key := by simpa using List.find?_some hfind
    have hmem : (ascii key, p.2) ∈ o := hname ▸ List.mem_of_find?_eq_some hfind
    obtain ⟨W, hW, hshows⟩ := showsMembers_mem hms hmem
    have hrev : ms.reverse.Perm ms' := ms.reverse_perm.trans hperm
    have hnodup : (ms.reverse.map Prod.fst).Nodup := by
      rw [(hrev.map Prod.fst).nodup_iff, showsMembers_names hms]
      exact hk.1
    refine ⟨W, ?_, hshows⟩
    show (ms.reverse.find? fun p => p.1 == ascii key).map Prod.snd = some W
    rw [find_name hnodup (hrev.mem_iff.mpr hW)]
    rfl
  | _ => cases h

/-- So for an integer. -/
theorem intProp_shows {i : Int32} (h : Http.intProp v key = some i) : intProp V key = some i := by
  unfold Http.intProp at h
  split at h
  · rename_i j hj
    cases h
    obtain ⟨W, hW, q, rfl, hq⟩ := prop_shows hk hs key hj
    unfold intProp
    rw [hW]
    simp only [hq, Rat.num_intCast, Int32.ofInt_toInt, if_true]
  · cases h

theorem doubleProp_shows {x : Double} (h : Http.doubleProp v key = some x) :
    doubleProp V key = some x := by
  unfold Http.doubleProp at h
  split at h
  · rename_i y hy
    cases h
    obtain ⟨W, hW, q, rfl, hq⟩ := prop_shows hk hs key hy
    unfold doubleProp
    rw [hW]
    exact congrArg some (Double.ext hq)
  · cases h

theorem stringProp_shows {s : Bytes} (h : Http.stringProp v key = some s) :
    stringProp V key = some s := by
  unfold Http.stringProp at h
  split at h
  · rename_i t ht
    cases h
    obtain ⟨W, hW, rfl⟩ := prop_shows hk hs key ht
    unfold stringProp
    rw [hW]
  · cases h

end Shown

/-! ## Lists -/

/-- What is read of the objects of a list. -/
theorem filterMap_shows {α β : Type} {read : Value → Option β} {write : α → WValue} {f : α → β}
    (h : ∀ a V, Shows (write a) V → read V = some (f a)) {l : List α} {vs : List Value}
    (hs : ShowsAll (l.map write) vs) : vs.filterMap read = l.map f := by
  induction l generalizing vs with
  | nil =>
    cases hs
    rfl
  | cons a l ih =>
    obtain ⟨V, vs', rfl, hV, hl⟩ := hs
    rw [List.filterMap_cons, h a V hV, ih hl, List.map_cons]

/-- The properties the pages read of an expense. An object without one of them is not among
those the server writes. -/
def expenseOf (V : Value) : Option Expense := do
  let id ← intProp V "id"
  let user_id ← intProp V "user_id"
  let category_id ← intProp V "category_id"
  let amount ← doubleProp V "amount"
  let description ← stringProp V "description"
  let expense_date ← stringProp V "expense_date"
  let type ← stringProp V "type"
  return { id, user_id, category_id, amount, description, expense_date, type }

/-- What the Budgets page reads of a budget. -/
structure BudgetRow where
  id : Int32
  category_name : Bytes
  target_amount : Double

def BudgetRow.ofBudget (b : Budget) : BudgetRow := ⟨b.id, b.category_name, b.target_amount⟩

def budgetOf (V : Value) : Option BudgetRow := do
  let id ← intProp V "id"
  let category_name ← stringProp V "category_name"
  let target_amount ← doubleProp V "target_amount"
  return { id, category_name, target_amount }

def expensesOf (data : Value) : List Expense := (listOf data).filterMap expenseOf

def budgetsOf (data : Value) : List BudgetRow := (listOf data).filterMap budgetOf

/-- The `amount`s of a list of savings. -/
def amountsOf (data : Value) : List Double := (listOf data).filterMap (doubleProp · "amount")

theorem keyed_expense (e : Expense) : Keyed (expenseJson e) :=
  ⟨L4.Reads.expense_names, trivial, trivial, trivial, trivial, trivial, trivial, trivial, trivial⟩

/-- An expense is read as the one written. -/
theorem expenseOf_shows (e : Expense) (V : Value) (h : Shows (expenseJson e) V) :
    expenseOf V = some e := by
  have hk := keyed_expense e
  unfold expenseOf
  rw [intProp_shows hk h "id" rfl, intProp_shows hk h "user_id" rfl,
    intProp_shows hk h "category_id" rfl, doubleProp_shows hk h "amount" rfl,
    stringProp_shows hk h "description" rfl,
    stringProp_shows hk h "expense_date" rfl, stringProp_shows hk h "type" rfl]
  rfl

theorem budgetOf_shows (b : Budget) (V : Value) (h : Shows (budgetJson b) V) :
    budgetOf V = some (.ofBudget b) := by
  have hk : Keyed (budgetJson b) := ⟨L4.Reads.budget_names, trivial, trivial, trivial, trivial⟩
  unfold budgetOf
  rw [intProp_shows hk h "id" rfl, stringProp_shows hk h "category_name" rfl,
    doubleProp_shows hk h "target_amount" rfl]
  rfl

theorem savingAmount_shows (x : SavingTx) (V : Value) (h : Shows (savingJson x) V) :
    doubleProp V "amount" = some x.amount := by
  have hk : Keyed (savingJson x) := ⟨L4.Reads.saving_names, trivial, trivial, trivial, trivial, trivial⟩
  exact doubleProp_shows hk h "amount" rfl

section Lists

variable {data : Value}

theorem expensesOf_shows {l : List Expense} (h : ShowsAll (l.map expenseJson) (listOf data)) :
    expensesOf data = l := by
  rw [expensesOf, filterMap_shows (f := id) expenseOf_shows h, List.map_id]

theorem budgetsOf_shows {l : List Budget} (h : ShowsAll (l.map budgetJson) (listOf data)) :
    budgetsOf data = l.map .ofBudget := filterMap_shows budgetOf_shows h

theorem amountsOf_shows {l : List SavingTx} (h : ShowsAll (l.map savingJson) (listOf data)) :
    amountsOf data = l.map SavingTx.amount := filterMap_shows savingAmount_shows h

end Lists

/-! ## Over a run -/

/-- What `res.json()` may give of the answer to a request, after the calls `xs`: the
server walks its maps in any order. -/
def Received (C : Crypto) (auth : Request → Int32) (ms : MySql) (other : Exec Db Bytes ResultSet)
    (db : Db) (xs : List Call) (call : Call) (data : Value) : Prop :=
  ∃ v v', (app C auth ms other).out ((app C auth ms other).after (.start db) xs) call =
      some ⟨200, .json v⟩ ∧ Held v v' ∧ Parses (dump v') data

section Runs

variable {C : Crypto} {auth : Request → Int32} {ms : MySql} {other : Exec Db Bytes ResultSet}
  {db : Db} {calls xs ys : List Call} {call : Call} {k : Collection}

/-- Whatever is received of a list is the list of the ledger. -/
theorem received (hempty : ledgerOf db = .empty) (hcalls : ∀ call ∈ calls, Sent ms auth call)
    (hdone : ListsDone C auth ms other db calls) (hsplit : calls = xs ++ call :: ys)
    (hroute : call.route = k.getRoute) :
    ∃ L, Machine.AbsRun (Answered ms auth) .empty ((app C auth ms other).history (.start db) xs) L ∧
      Priced L ∧ (∃ data, Received C auth ms other db xs call data) ∧
      ∀ data, Received C auth ms other db xs call data →
        ShowsAll (L.entries (auth call.req) k) (listOf data) := by
  obtain ⟨L, hrun, hpriced, hout⟩ := ledger_out hempty hcalls hdone hsplit hroute
  have hwire := entries_wire hpriced (auth call.req) k
  refine ⟨L, hrun, hpriced, ?_, ?_⟩
  · obtain ⟨data, hparses, _⟩ := list_arrives hwire (Held.refl _)
    exact ⟨data, _, _, hout, Held.refl _, hparses⟩
  · rintro data ⟨v, v', hv, hh, hparses⟩
    obtain rfl : .ofList (L.entries (auth call.req) k) = v := by
      have hbody := congrArg Response.body (Option.some.inj (hout.symm.trans hv))
      exact Body.json.inj hbody
    obtain ⟨data', hparses', hshows⟩ := list_arrives hwire hh
    rwa [hparses.unique hparses']

end Runs

end ExpenseTracker.L5.Parsed
