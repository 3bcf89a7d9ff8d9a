import ExpenseTracker.L2Store.Statement

/-!
# Category labels on the pages

A category is a number in the database and a label on the pages, and every
page has its own table from one to the other. This module follows an entry
of the Dashboard form to the Budgets and Transactions pages and to the
`Categories` table.

* `labels_agree_iff`: they agree on a list of entries exactly when none of
  them was entered under Food, Housing or Entertainment.
-/
namespace ExpenseTracker.L5.Labels

open ExpenseTracker.Core ExpenseTracker.L2.Statement

/-! ## The tables -/

/-- A page's `CATEGORIES`, by ascending key. -/
abbrev LabelTable := List (Int32 × String)

namespace Dashboard

/-- The options of the Add Expense form.
mirrors src/frontend/src/pages/Dashboard.jsx:404-412 -/
def options : LabelTable :=
  [(1, "Food"), (2, "Transport"), (3, "Housing"), (4, "Utilities"), (5, "Entertainment"),
    (7, "Shopping"), (8, "Other")]

end Dashboard

namespace Transactions

/-- mirrors src/frontend/src/pages/Transactions.jsx:7-18 -/
def CATEGORIES : LabelTable :=
  [(1, "Housing"), (2, "Transportation"), (3, "Food"), (4, "Utilities"), (5, "Insurance"),
    (6, "Medical"), (7, "Investing"), (8, "Personal"), (9, "Entertainment"), (10, "Others")]

/-- `CATEGORIES[exp.category_id] || "Unknown"`
mirrors src/frontend/src/pages/Transactions.jsx:150 -/
def label (exp : Expense) : String :=
  match CATEGORIES.find? (·.1 == exp.category_id) with
  | some c => c.2
  | none => "Unknown"

end Transactions

namespace Budgets

/-- mirrors src/frontend/src/pages/Budgets.jsx:8-12 -/
def CATEGORIES : LabelTable :=
  [(1, "Housing"), (2, "Transportation"), (3, "Food"), (4, "Utilities"), (5, "Insurance"),
    (6, "Medical"), (7, "Investing"), (8, "Personal"), (9, "Entertainment"), (10, "Others")]

/-- `Object.keys(CATEGORIES).find(key => CATEGORIES[key] === b.category_name)`
mirrors src/frontend/src/pages/Budgets.jsx:103 -/
def catId (category_name : String) : Option Int32 :=
  (CATEGORIES.find? (·.2 == category_name)).map Prod.fst

/-- The amount shown as spent; `add` is the addition of doubles.
mirrors src/frontend/src/pages/Budgets.jsx:104 -/
def spent (add : Double → Double → Double) (category_name : String) (expenses : List Expense) :
    Double :=
  (expenses.filter fun e =>
    e.type == ascii "expense" && some e.category_id == catId category_name).foldl
      (fun acc curr => add acc curr.amount) .zero

end Budgets

/-! ## Entries of the form -/

/-- An entry of type 'expense' under one of the form's options, with the key
and user it is stored under. -/
structure Entry where
  id : Int32
  user_id : Int32
  option : { o : Int32 × String // o ∈ Dashboard.options }
  amount : Double
  description : Bytes
  expense_date : Bytes

namespace Entry

/-- The label it was entered under. -/
def label (e : Entry) : String := e.option.1.2

/-- The record the pages get back. -/
def expense (e : Entry) : Expense where
  id := e.id
  user_id := e.user_id
  category_id := e.option.1.1
  amount := e.amount
  description := e.description
  expense_date := e.expense_date
  type := ascii "expense"

end Entry

/-- The labels both the form and the Budgets page offer. -/
def shared : List String :=
  (Dashboard.options.map Prod.snd).filter ((Budgets.CATEGORIES.map Prod.snd).contains ·)

/-- The amounts entered under a label, added up. -/
def entered (add : Double → Double → Double) (label : String) (entries : List Entry) : Double :=
  (entries.filter fun e => e.label == label).foldl (fun acc curr => add acc curr.amount) .zero

/-- The pages and the database agree on a list of entries. -/
def Agree (add : Double → Double → Double) (entries : List Entry) : Prop :=
  ∀ label ∈ shared,
    Budgets.spent add label (entries.map Entry.expense) = entered add label entries ∧
    ∀ e ∈ entries, e.label = label →
      Transactions.label e.expense = label ∧
        (L2.Categories.migrated.rows.find? (·.1 == e.expense.category_id)).map Prod.snd = some label

/-- The labels whose keys the pages disagree on. -/
def drifted : List String := ["Food", "Housing", "Entertainment"]

/-! ## Agreement -/

example : shared = ["Food", "Housing", "Utilities", "Entertainment"] := by decide

/-- The form's labels in `Categories`. -/
theorem categories_label (o : { o : Int32 × String // o ∈ Dashboard.options }) (h : o.1.2 ∈ shared) :
    (L2.Categories.migrated.rows.find? (·.1 == o.1.1)).map Prod.snd = some o.1.2 := by
  obtain ⟨o, ho⟩ := o
  have hall : ∀ o ∈ Dashboard.options, o.2 ∈ shared →
      (L2.Categories.migrated.rows.find? (·.1 == o.1)).map Prod.snd = some o.2 := by decide
  exact hall o ho h

/-- Of the shared labels Utilities alone has one key everywhere. -/
theorem option_key (o : { o : Int32 × String // o ∈ Dashboard.options }) (hd : o.1.2 ∉ drifted)
    {label : String} (hl : label ∈ shared) :
    (some o.1.1 == Budgets.catId label) = (o.1.2 == label) := by
  obtain ⟨o, ho⟩ := o
  have hall : ∀ o ∈ Dashboard.options, o.2 ∉ drifted → ∀ label ∈ shared,
      (some o.1 == Budgets.catId label) = (o.2 == label) := by decide
  exact hall o ho hd label hl

theorem transactions_label (o : { o : Int32 × String // o ∈ Dashboard.options }) (h : o.1.2 ∈ shared)
    (exp : Expense) (he : exp.category_id = o.1.1) :
    Transactions.label exp = o.1.2 ↔ o.1.2 ∉ drifted := by
  obtain ⟨o, ho⟩ := o
  have hall : ∀ o ∈ Dashboard.options, o.2 ∈ shared →
      ((match Transactions.CATEGORIES.find? (·.1 == o.1) with
        | some c => c.2
        | none => "Unknown") = o.2 ↔ o.2 ∉ drifted) := by decide
  rw [Transactions.label, he]
  exact hall o ho h

/-- What the Budgets page adds up, where no entry is under a drifted label. -/
theorem spent_eq_entered (add : Double → Double → Double) {label : String} (hl : label ∈ shared)
    {entries : List Entry} (h : ∀ e ∈ entries, e.label ∉ drifted) :
    Budgets.spent add label (entries.map Entry.expense) = entered add label entries := by
  unfold Budgets.spent entered
  rw [List.filter_map, List.foldl_map]
  have hfilter : entries.filter ((fun e : Expense =>
      e.type == ascii "expense" && some e.category_id == Budgets.catId label) ∘ Entry.expense) =
        entries.filter fun e => e.label == label := by
    refine List.filter_congr fun e he => ?_
    have hkey := option_key e.option (h e he) hl
    simp only [Function.comp_apply, Entry.expense, beq_self_eq_true, Bool.true_and]
    exact hkey
  rw [hfilter]
  rfl

/-- **Category agreement.** -/
theorem labels_agree_iff (add : Double → Double → Double) (entries : List Entry) :
    Agree add entries ↔ ∀ e ∈ entries, e.label ∉ ["Food", "Housing", "Entertainment"] := by
  refine ⟨?_, ?_⟩
  · intro h e he hd
    have hshared : e.label ∈ shared := by
      have hsub : ∀ l ∈ ["Food", "Housing", "Entertainment"], l ∈ shared := by decide
      exact hsub _ hd
    have hlabel := ((h e.label hshared).2 e he rfl).1
    exact (transactions_label e.option hshared e.expense rfl).mp hlabel hd
  · intro h label hl
    refine ⟨spent_eq_entered add hl h, fun e he hlabel => ?_⟩
    subst hlabel
    exact ⟨(transactions_label e.option hl e.expense rfl).mpr (h e he), categories_label e.option hl⟩

/-- Groceries entered under Food count as Housing. -/
def groceries : Entry where
  id := 1
  user_id := 1
  option := ⟨(1, "Food"), by decide⟩
  amount := .zero
  description := ascii "groceries"
  expense_date := ascii "2024-05-01"

theorem labels_agree_groceries :
    Transactions.label groceries.expense = "Housing" ∧
      ∀ add : Double → Double → Double, ¬ Agree add [groceries] := by
  refine ⟨by decide, fun add h => ?_⟩
  have hlabel := ((h "Food" (by decide)).2 groceries List.mem_cons_self rfl).1
  revert hlabel
  decide

end ExpenseTracker.L5.Labels
