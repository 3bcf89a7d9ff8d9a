import ExpenseTracker.L3Server.CrowRead
import ExpenseTracker.L3Server.Answers
import ExpenseTracker.L4Service.Refinement

/-!
# From page to page over the wire

A page writes a form with `JSON.stringify`, the server reads the text with
`crow::json::load`, stores it, lists it, writes the list with `dump()`, and the
page parses that text. Nothing is lost on the way: the parsed answer is the
abstract ledger. What the forms hold must be plain, so that the statements sent
are read as they are meant.

* `load_written`: what a writer without white space writes is loaded.
* `stringified_body`: a form's text is read as that form.
* `app_refines`: the program refines the ledger, one request at a time.
* `wire_ledger`: over every run, in whatever order the server walks its maps.
-/
namespace ExpenseTracker.L4.Wire

open ExpenseTracker.Core ExpenseTracker.Core.JsonSyntax ExpenseTracker.Core.JsonWrite
open ExpenseTracker.L1.Amount ExpenseTracker.L1.Password
open ExpenseTracker.L2.Schema ExpenseTracker.L2.Server ExpenseTracker.L2.SqlText
open ExpenseTracker.L2.Statement
open ExpenseTracker.L3.Program ExpenseTracker.L3.Json ExpenseTracker.L3.Routes ExpenseTracker.L3.Serve
open ExpenseTracker.L3.CrowLoad ExpenseTracker.L3.CrowDump ExpenseTracker.L3.Answers
open ExpenseTracker.L4.Refinement ExpenseTracker.L4.Tokens

/-! ## Reading what is written -/

mutual

/-- What the handlers read of a text without white space. -/
def written : Out → RValue
  | .null => .null
  | .bool b => .bool b
  | .number n _ => .number (numberOf n)
  | .string s => .string (texts (s.map quote)) s
  | .array l => .list (writtenAll l)
  | .object o => .object (writtenMembers o)

def writtenAll : List Out → List RValue
  | [] => []
  | x :: l => written x :: writtenAll l

def writtenMembers : List (Bytes × Out) → List (Bytes × RValue)
  | [] => []
  | (k, x) :: o => (k, written x) :: writtenMembers o

end

mutual

theorem rvalue_doc (x : Out) : (nodeOf x.doc).rvalue = some (written x) := by
  match x with
  | .null => rfl
  | .bool b => rfl
  | .number n h =>
    rw [Out.doc, nodeOf, Node.rvalue, scanNumber_text, if_pos h.2]
    rfl
  | .string s => rw [Out.doc, nodeOf, Node.rvalue, unescape_texts, flatMap_quote, written]
  | .array l =>
    have hl := rvalues_elements l
    rw [Out.doc, written]
    cases he : Out.elements l with
    | none =>
      rw [he] at hl
      rw [hl]
      rfl
    | some e =>
      rw [he] at hl
      exact congrArg (Option.map RValue.list) hl
  | .object o =>
    have ho := members_named o
    rw [Out.doc, written]
    cases he : Out.named o with
    | none =>
      rw [he] at ho
      rw [ho]
      rfl
    | some e =>
      rw [he] at ho
      exact congrArg (Option.map RValue.object) ho

theorem rvalues_elements (l : List Out) :
    match Out.elements l with
    | none => l = []
    | some e => Node.rvalues (nodesOf e) = some (writtenAll l) := by
  match l with
  | [] => rfl
  | x :: l =>
    have hx := rvalue_doc x
    have hl := rvalues_elements l
    rw [Out.elements]
    cases he : Out.elements l with
    | none =>
      rw [he] at hl
      simp only at hl ⊢
      rw [nodesOf, Node.rvalues, hx, hl]
      rfl
    | some e =>
      rw [he] at hl
      simp only at hl ⊢
      rw [nodesOf, Node.rvalues, hx, hl]
      rfl

theorem members_named (o : List (Bytes × Out)) :
    match Out.named o with
    | none => o = []
    | some m => Node.members (namedOf m) = some (writtenMembers o) := by
  match o with
  | [] => rfl
  | (k, x) :: o =>
    have hx := rvalue_doc x
    have ho := members_named o
    rw [Out.named]
    cases he : Out.named o with
    | none =>
      rw [he] at ho
      simp only at ho ⊢
      rw [namedOf, Node.members, hx, ho, flatMap_quote]
      rfl
    | some e =>
      rw [he] at ho
      simp only at ho ⊢
      rw [namedOf, Node.members, hx, ho, flatMap_quote]
      rfl

end

/-- `crow::json::load(req.body)`, as the handlers read it. -/
def bodyOf (text : Bytes) : Option RValue := (L3.CrowLoad.load text).bind Node.rvalue

theorem load_written {x : Out} (hz : ∀ n ∈ x.numerals, ¬ ZeroExp n) (hh : x.height ≤ 5000) :
    bodyOf x.text = some (written x) := by
  obtain ⟨hnum, hheight⟩ := Out.doc_numerals x
  have htext : x.text = tight.1 ++ (x.doc.text ++ tight.1) := by simp [tight, Out.doc_text]
  have hload : L3.CrowLoad.load x.text = some (nodeOf x.doc) := by
    rw [htext, load_doc]
    exact (loaded_iff x.doc 0 _).mpr ⟨hnum ▸ hz, (fits_zero _).mpr (hheight ▸ hh), rfl⟩
  rw [bodyOf, hload]
  exact rvalue_doc x

/-! ## What a page writes of a form -/

/-- A number as `JSON.stringify` writes it. -/
def numberOut {x : Double} (t : Shown x) : Out := .number t.numeral t.tidy.1

/-- `parseInt(category)` -/
def ofInt (i : Int32) : Double := Double.ofRat i.toInt

/-- `JSON.stringify(payload)` -/
inductive Stringified {ms : MySql} : Form ms → Bytes → Prop
  | expense (f : ExpenseForm ms) (a : Shown (ofCents f.cents)) (c : Shown (ofInt f.category_id)) :
      Stringified (.expense f) (Out.object
        [(ascii "description", .string f.description), (ascii "amount", numberOut a),
          (ascii "category_id", numberOut c), (ascii "expense_date", .string f.expense_date),
          (ascii "type", .string f.type)]).text
  | budget (f : BudgetForm ms) (a : Shown (ofCents f.cents)) :
      Stringified (.budget f) (Out.object
        [(ascii "category_name", .string f.category_name), (ascii "target_amount", numberOut a)]).text
  | saving (f : SavingForm ms) (a : Shown (ofCents f.cents)) :
      Stringified (.saving f) (Out.object
        [(ascii "amount", numberOut a), (ascii "description", .string f.description),
          (ascii "transaction_date", .string f.transaction_date)]).text
  | goal (f : GoalForm ms) (a : Shown (ofCents f.target)) (s : Shown (ofCents f.saved)) :
      Stringified (.goal f) (Out.object
        [(ascii "title", .string f.title), (ascii "target_amount", numberOut a),
          (ascii "saved_amount", numberOut s), (ascii "deadline", .string f.deadline),
          (ascii "priority", .string f.priority)]).text

theorem not_zeroExp {x : Double} (t : Shown x) : ¬ ZeroExp t.numeral := t.tidy.2

theorem isText_written (s : Bytes) : IsText (written (.string s)) s := ⟨_, rfl⟩

theorem isAmount_written {k : ℤ} (t : Shown (ofCents k)) : IsAmount (written (numberOut t)) k := by
  refine ⟨numberOf t.numeral, rfl, Double.ext ?_⟩
  rw [numberOf_value]
  exact t.reads

theorem isInt_written {i : Int32} (t : Shown (ofInt i)) : IsInt (written (numberOut t)) i := by
  have h1 := Int32.le_toInt i
  have h2 := Int32.toInt_lt i
  have hval : (ofInt i).val = i.toInt :=
    nearest_intCast (abs_le.mpr ⟨by omega, by omega⟩)
  obtain ⟨hneg, hread⟩ := t.integer hval (abs_le.mpr ⟨by omega, by omega⟩)
  refine ⟨numberOf t.numeral, rfl, ?_⟩
  have hleading : (numberOf t.numeral).leading =
      if t.numeral.neg then -(readNat t.numeral.int : ℤ) else readNat t.numeral.int := rfl
  rw [hleading, hneg, hread]
  by_cases h : i.toInt < 0
  · rw [if_pos (by simpa using h)]
    omega
  · rw [if_neg (by simpa using h)]
    omega

/-- A form arrives as it was written. -/
theorem stringified_body {ms : MySql} {f : Form ms} {s : Bytes} (h : Stringified f s) :
    ∃ x, bodyOf s = some x ∧ f.Body x := by
  cases h with
  | expense f a c =>
    refine ⟨_, load_written ?_ ?_, _, _, _, _, _, rfl, isText_written _, isAmount_written a,
      isInt_written c, isText_written _, isText_written _⟩
    · simp [Out.numerals, Out.memberNumerals, numberOut, not_zeroExp]
    · simp [Out.height, Out.memberHeight, numberOut]
  | budget f a =>
    refine ⟨_, load_written ?_ ?_, _, _, rfl, isText_written _, isAmount_written a⟩
    · simp [Out.numerals, Out.memberNumerals, numberOut, not_zeroExp]
    · simp [Out.height, Out.memberHeight, numberOut]
  | saving f a =>
    refine ⟨_, load_written ?_ ?_, _, _, _, rfl, isAmount_written a, isText_written _,
      isText_written _⟩
    · simp [Out.numerals, Out.memberNumerals, numberOut, not_zeroExp]
    · simp [Out.height, Out.memberHeight, numberOut]
  | goal f a t =>
    refine ⟨_, load_written ?_ ?_, _, _, _, _, _, rfl, isText_written _, isAmount_written a,
      isAmount_written t, isText_written _, isText_written _⟩
    · simp [Out.numerals, Out.memberNumerals, numberOut, not_zeroExp]
    · simp [Out.height, Out.memberHeight, numberOut]

/-! ## What an answer holds -/

/-- An amount of a form. -/
def IsPrice (x : Double) : Prop := ∃ k : ℤ, |k| < 10 ^ 10 ∧ x = ofCents k

theorem IsPrice.not_cut {x : Double} (h : IsPrice x) : ¬ Cut x := by
  obtain ⟨k, hk, rfl⟩ := h
  exact Reads.not_cut_ofCents hk

/-- Every amount of the ledger is one of a form. -/
structure Priced (L : Ledger) : Prop where
  Expenses : ∀ e ∈ L.Expenses, IsPrice e.amount
  Budgets : ∀ b ∈ L.Budgets, IsPrice b.target_amount
  Savings : ∀ s ∈ L.Savings, IsPrice s.amount
  Goals : ∀ g ∈ L.Goals, IsPrice g.target_amount ∧ IsPrice g.saved_amount

theorem priced_empty : Priced .empty := by
  refine ⟨?_, ?_, ?_, ?_⟩ <;> simp [Ledger.empty]

theorem forall_mem_snoc {α : Type} {P : α → Prop} {l : List α} {a : α} (h : ∀ x ∈ l, P x) (ha : P a) :
    ∀ x ∈ l ++ [a], P x := by
  intro x hx
  rcases List.mem_append.mp hx with hx | hx
  · exact h x hx
  · rw [List.mem_singleton.mp hx]
    exact ha

section Ledgers

variable {ms : MySql} {auth : Request → Int32}

theorem priced_step {L L' : Ledger} {call : Call} {r : Response} (h : Ledger.Step ms auth L call r L')
    (hL : Priced L) : Priced L' := by
  cases h with
  | posted f x id =>
    cases f with
    | expense f => exact ⟨forall_mem_snoc hL.Expenses ⟨_, f.inRange, rfl⟩, hL.Budgets, hL.Savings, hL.Goals⟩
    | budget f => exact ⟨hL.Expenses, forall_mem_snoc hL.Budgets ⟨_, f.inRange, rfl⟩, hL.Savings, hL.Goals⟩
    | saving f => exact ⟨hL.Expenses, hL.Budgets, forall_mem_snoc hL.Savings ⟨_, f.inRange, rfl⟩, hL.Goals⟩
    | goal f =>
      exact ⟨hL.Expenses, hL.Budgets, hL.Savings, forall_mem_snoc hL.Goals
        ⟨⟨_, f.targetInRange, rfl⟩, ⟨_, f.savedInRange, rfl⟩⟩⟩
  | deleted id =>
    exact ⟨fun e he => hL.Expenses e (List.mem_of_mem_filter he), hL.Budgets, hL.Savings, hL.Goals⟩
  | refused => exact hL
  | listed k => exact hL

end Ledgers

/-- The entries are objects whose names differ, and their doubles are prices. -/
theorem entries_wire {L : Ledger} (hL : Priced L) (u : Int32) (k : Collection) :
    ∀ v ∈ L.entries u k, Keyed v ∧ ∀ x ∈ doubles v, IsPrice x := by
  intro v hv
  cases k with
  | Expenses =>
    obtain ⟨e, he, rfl⟩ := List.mem_map.mp hv
    have hp := hL.Expenses e (List.mem_of_mem_filter he)
    refine ⟨Reads.legible_expense.keyed _, ?_⟩
    simpa [expenseJson, doubles, memberDoubles] using hp
  | Budgets =>
    obtain ⟨b, hb, rfl⟩ := List.mem_map.mp hv
    have hp := hL.Budgets b (List.mem_of_mem_filter hb)
    refine ⟨Reads.legible_budget.keyed _, ?_⟩
    simpa [budgetJson, doubles, memberDoubles] using hp
  | Savings =>
    obtain ⟨s, hs, rfl⟩ := List.mem_map.mp hv
    have hp := hL.Savings s (List.mem_of_mem_filter hs)
    refine ⟨Reads.legible_saving.keyed _, ?_⟩
    simpa [savingJson, doubles, memberDoubles] using hp
  | Goals =>
    obtain ⟨g, hg, rfl⟩ := List.mem_map.mp hv
    have hp := hL.Goals g (List.mem_of_mem_filter hg)
    refine ⟨Reads.legible_goal.keyed _, ?_⟩
    simpa [goalJson, doubles, memberDoubles] using hp

/-- A list of prices arrives as it is, in whatever order the maps are walked in. -/
theorem list_arrives {l : List WValue} (hl : ∀ v ∈ l, Keyed v ∧ ∀ x ∈ doubles v, IsPrice x)
    {v' : WValue} (hh : Held (.ofList l) v') :
    ∃ V, JsonText.Parses (dump v') V ∧ ShowsAll l (listOf V) := by
  refine list_shows (keyedAll_of fun v hv => (hl v hv).1) (fun x hx => ?_) hh
  obtain ⟨v, hv, hxv⟩ := mem_listDoubles hx
  exact ((hl v hv).2 x hxv).not_cut

/-! ## Over a run -/

/-- A request a page sends. The texts of a form are such as stand between quotes as they are. -/
inductive Sent (ms : MySql) (auth : Request → Int32) (call : Call) : Prop
  | post (f : Form ms) (text : Bytes) : auth call.req ≠ -1 → call.route = f.route →
      Stringified f text → call.req.body = bodyOf text → (∀ s ∈ f.texts, Plain s) → Sent ms auth call
  | get (k : Collection) : auth call.req ≠ -1 → call.route = k.getRoute → Sent ms auth call
  | delete (id : Int32) : auth call.req ≠ -1 → call.route = .deleteExpense id → Sent ms auth call

/-- What a request and its answer do to the ledger; there is always an answer. -/
def Answered (ms : MySql) (auth : Request → Int32) (L : Ledger) (call : Call)
    (answer : Option Response) (L' : Ledger) : Prop :=
  ∃ r, answer = some r ∧ Ledger.Step ms auth L call r L'

/-- Every list of the run whose calls do not both succeed has nothing to list. -/
def ListsDone (C : Crypto) (auth : Request → Int32) (ms : MySql) (other : Exec Db Bytes ResultSet)
    (db : Db) (calls : List Call) : Prop :=
  (app C auth ms other).Along (fun p call => ReadDone auth p.conn call) (.start db) calls

section Sent

variable {ms : MySql} {auth : Request → Int32} {call : Call}

theorem Sent.formed (h : Sent ms auth call) : Formed ms auth call := by
  cases h with
  | post f text ha hroute htext hbody =>
    obtain ⟨x, hx, hf⟩ := stringified_body htext
    exact .post f x ha hroute (hbody.trans hx) hf
  | get k ha hroute => exact .get k ha hroute
  | delete id ha hroute => exact .delete id ha hroute

/-- The body of a form is an object. -/
theorem not_ends_of_body {f : Form ms} {x : RValue} (hb : call.req.body = some x) (hf : f.Body x) :
    ¬ Ends auth call := by
  rintro ⟨_, _, v, l, hlist⟩
  obtain rfl : x = .list (v :: l) := Option.some.inj (hb.symm.trans hlist)
  cases f with
  | expense f => obtain ⟨_, _, _, _, _, hx, _⟩ := hf; cases hx
  | budget f => obtain ⟨_, _, hx, _⟩ := hf; cases hx
  | saving f => obtain ⟨_, _, _, hx, _⟩ := hf; cases hx
  | goal f => obtain ⟨_, _, _, _, _, hx, _⟩ := hf; cases hx

/-- Its statement is read as meant, and it is answered. -/
theorem Sent.tame (C : Crypto) (h : Sent ms auth call) : Tame C auth ms call := by
  cases h with
  | post f text ha hroute htext hbody hplain =>
    obtain ⟨x, hx, hf⟩ := stringified_body htext
    have hb := hbody.trans hx
    refine tame_of_storing (hroute ▸ (form_route f).1) (not_ends_of_body hb hf) fun q hq => ?_
    rw [storing_form ha hroute hb hf] at hq
    cases hq
    rw [Form.strings_stmt]
    exact hplain
  | get k ha hroute => exact tame_get hroute
  | delete id ha hroute =>
    refine tame_of_storing (by rw [hroute]; rfl) (fun hends => ?_) fun q hq => ?_
    · rw [hends.1] at hroute
      cases hroute
    · simp only [storing, hroute, if_neg ha] at hq
      cases hq
      simp [Stmt.strings]

end Sent

section Runs

variable {C : Crypto} {auth : Request → Int32} {ms : MySql} {other : Exec Db Bytes ResultSet}
  {db : Db} {calls xs ys : List Call} {call : Call} {k : Collection}

/-- The process is up, and its tables hold the ledger. -/
structure Serves (p : Process) (L : Ledger) : Prop where
  up : p.up = true
  idle : Idle p.conn
  holds : Holds p.conn.db L
  priced : Priced L

/-- **One request.** -/
theorem app_refines : (app C auth ms other).Refines (Answered ms auth) Serves
    fun p call => Sent ms auth call ∧ ReadDone auth p.conn call := by
  rintro ⟨up, c⟩ L call ⟨rfl, hidle, hholds, hpriced⟩ ⟨hsent, hdone⟩
  have hstep := program_step ((hsent.tame C).orderly other) c
  obtain ⟨L', hT, hidle', hholds'⟩ :=
    refines_step (C := C) c L call ⟨hidle, hholds⟩ ⟨hsent.formed, hdone⟩
  refine ⟨L', ⟨_, congrArg Prod.fst hstep, hT⟩, ?_⟩
  rw [Machine.next, hstep]
  exact ⟨rfl, hidle', hholds', priced_step hT hpriced⟩

/-- The ledger a list is taken from. -/
theorem ledger_out (hempty : ledgerOf db = .empty) (hcalls : ∀ call ∈ calls, Sent ms auth call)
    (hdone : ListsDone C auth ms other db calls) (hsplit : calls = xs ++ call :: ys)
    (hroute : call.route = k.getRoute) :
    ∃ L, Machine.AbsRun (Answered ms auth) .empty ((app C auth ms other).history (.start db) xs) L ∧
      Priced L ∧ (app C auth ms other).out ((app C auth ms other).after (.start db) xs) call =
        some ⟨200, .json (.ofList (L.entries (auth call.req) k))⟩ := by
  subst hsplit
  obtain ⟨hdonexs, hdonecall, _⟩ := (Machine.along_append _ _ _ _ _).mp hdone
  have hxs : (app C auth ms other).Along
      (fun p call => Sent ms auth call ∧ ReadDone auth p.conn call) (.start db) xs := by
    rw [Machine.along_and, Machine.along_inputs]
    exact ⟨fun call hc => hcalls call (List.mem_append_left _ hc), hdonexs⟩
  obtain ⟨L, hrun, hserves⟩ :=
    app_refines.run xs _ _ ⟨rfl, idle_idle db, holds_empty hempty, priced_empty⟩ hxs
  refine ⟨L, hrun, hserves.priced, ?_⟩
  have hsent := hcalls call (by simp)
  generalize (app C auth ms other).after (.start db) xs = p at hserves hdonecall ⊢
  obtain ⟨up, c⟩ := p
  obtain ⟨rfl, hidle, ⟨hw, rfl⟩, _⟩ := hserves
  rw [program_out ((hsent.tame C).orderly other), hidle.out, serve_get hroute hsent.formed.acting]
  cases hf : call.fault.query || call.fault.store with
  | true =>
    rw [hdonecall k hroute hf]
    rfl
  | false =>
    simp only [Bool.false_eq_true, if_false, listed_eq hw, listing]

end Runs

/-- **From page to page.** Whatever the pages sent before, the text of a list is
parsed as the abstract ledger's records. -/
theorem wire_ledger (C : Crypto) (auth : Request → Int32) (ms : MySql)
    (other : Exec Db Bytes ResultSet) (db : Db) (hempty : ledgerOf db = .empty) (calls : List Call)
    (hcalls : ∀ call ∈ calls, Sent ms auth call) (hdone : ListsDone C auth ms other db calls)
    (xs ys : List Call) (call : Call) (k : Collection) (hsplit : calls = xs ++ call :: ys)
    (hroute : call.route = k.getRoute) :
    ∃ L v,
      Machine.AbsRun (Answered ms auth) .empty ((app C auth ms other).history (.start db) xs) L ∧
      (app C auth ms other).out ((app C auth ms other).after (.start db) xs) call =
        some ⟨200, .json v⟩ ∧
      ∀ v', Held v v' →
        ∃ V, JsonText.Parses (dump v') V ∧ ShowsAll (L.entries (auth call.req) k) (listOf V) := by
  obtain ⟨L, hrun, hpriced, hout⟩ := ledger_out hempty hcalls hdone hsplit hroute
  exact ⟨L, _, hrun, hout, fun v' hh => list_arrives (entries_wire hpriced _ k) hh⟩

/-! ## A coffee, there and back -/

section Digit

variable {x : Double} {n : ℕ} (h0 : 0 < n)

theorem digit_length (h0 : 0 < n) (h9 : n < 10) : (natText n).length = 1 :=
  length_natText (k := 0) (by omega) (by omega)

theorem digit_fewest (h9 : n < 10) (d : Decimal) :
    (Decimal.mk n 1 h0).digits.length ≤ d.digits.length := by
  show (natText n).length ≤ _
  rw [digit_length h0 h9]
  exact d.length_pos

theorem digit_ne_zero (h0 : 0 < n) (hx : x.val = n) : x.val ≠ 0 := by
  rw [hx]
  exact_mod_cast h0.ne'

theorem digit_reads (h9 : n < 10) (hx : x.val = n) :
    Decimal.signed false (nearest (Decimal.mk n 1 h0).value) = x.val := by
  have hval : (Decimal.mk n 1 h0).value = n := by
    simp [Decimal.value, Decimal.digits, digit_length h0 h9]
  show nearest (Decimal.mk n 1 h0).value = _
  rw [hval, hx]
  exact_mod_cast nearest_intCast (n := n) (by rw [abs_of_nonneg (by omega)]; omega)

end Digit

/-- One digit is the fewest. -/
def shownDigit {x : Double} (n : ℕ) (h0 : 0 < n) (h9 : n < 10) (hx : x.val = n) : Shown x :=
  .digits false ⟨n, 1, h0⟩ (digit_ne_zero h0 hx) (digit_reads h0 h9 hx)
    fun d _ => digit_fewest h0 h9 d

theorem coffee_fits : MySql.plain.fits 255 (ascii "coffee") = true := by decide

theorem coffee_inRange : |(500 : ℤ)| < 10 ^ 10 := by decide

theorem coffee_date : isDate (ascii "2024-05-01") = true := by decide

theorem coffee_label : ascii "expense" = ascii "income" ∨ ascii "expense" = ascii "expense" :=
  Or.inr rfl

/-- Coffee for 5.00. -/
def coffeeForm : ExpenseForm MySql.plain where
  description := ascii "coffee"
  cents := 500
  category_id := 1
  expense_date := ascii "2024-05-01"
  type := ascii "expense"
  fits := coffee_fits
  inRange := coffee_inRange
  date := coffee_date
  label := coffee_label

def coffeeText : Bytes :=
  ascii "\x7b\"description\":\"coffee\",\"amount\":5,\"category_id\":1,\"expense_date\":\"2024-05-01\",\"type\":\"expense\"\x7d"

theorem five_val : (ofCents 500).val = (5 : ℕ) := by
  have h : ((500 : ℤ) : ℚ) / 100 = ((5 : ℤ) : ℚ) := by norm_num
  show nearest _ = _
  rw [h, nearest_intCast (by norm_num)]
  norm_num

theorem coffee_stringified : Stringified (.expense coffeeForm) coffeeText := by
  have hc : (ofInt 1).val = (1 : ℕ) := by
    have h : nearest (((1 : Int32).toInt : ℤ) : ℚ) = ((1 : Int32).toInt : ℤ) :=
      nearest_intCast (by decide)
    exact h.trans (by decide)
  exact .expense coffeeForm (shownDigit 5 (by decide) (by decide) five_val)
    (shownDigit 1 (by decide) (by decide) hc)

def postCoffee : Call := ⟨.postExpenses, bearer annToken (bodyOf coffeeText), .none⟩

theorem coffee_plain : ∀ s ∈ (Form.expense coffeeForm).texts, Plain s := by decide

/-- Her list after the coffee, as it arrives. -/
theorem wire_ledger_coffee : ∃ L v,
    Machine.AbsRun (Answered MySql.plain (authenticate Crypto.zero)) .empty
      ((app Crypto.zero (authenticate Crypto.zero) MySql.plain fun _ _ => none).history
        (.start annsHome) [postCoffee]) L ∧
    (app Crypto.zero (authenticate Crypto.zero) MySql.plain fun _ _ => none).out
      ((app Crypto.zero (authenticate Crypto.zero) MySql.plain fun _ _ => none).after
        (.start annsHome) [postCoffee]) (listLunch false) = some ⟨200, .json v⟩ ∧
    ∀ v', Held v v' → ∃ V, JsonText.Parses (dump v') V ∧
      ShowsAll (L.entries (authenticate Crypto.zero (listLunch false).req) .Expenses) (listOf V) := by
  refine wire_ledger Crypto.zero (authenticate Crypto.zero) MySql.plain (fun _ _ => none) annsHome rfl
    [postCoffee, listLunch false] ?_ ⟨?_, ?_, trivial⟩ [postCoffee] [] (listLunch false) .Expenses rfl rfl
  · intro call hcall
    rcases List.mem_cons.mp hcall with rfl | hcall
    · exact .post (.expense coffeeForm) coffeeText (acting_ann _ _ _) rfl coffee_stringified rfl
        coffee_plain
    · rw [List.mem_singleton.mp hcall]
      exact .get .Expenses (acting_ann _ _ _) rfl
  · intro k hroute
    cases k <;> cases hroute
  · intro k _ hf
    cases hf

end ExpenseTracker.L4.Wire
