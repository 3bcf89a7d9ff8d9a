import ExpenseTracker.L4Service.Integers

/-!
# The category of an expense

No category is a missing key in a request body, the integer 0 in the
program, and NULL in the table. The reader turns NULL into 0; the writer
turns nothing into NULL: it writes the integer 0, which is no key of
`Categories`, so the foreign key refuses the row.

* `category_round_trip`: an otherwise valid expense is stored and listed with its
  category exactly when that category is a row of `Categories`.
-/
namespace ExpenseTracker.L4.Categorised

open ExpenseTracker.Core ExpenseTracker.L1.Amount ExpenseTracker.L1.Password
open ExpenseTracker.L2.Schema ExpenseTracker.L2.Statement ExpenseTracker.L2.Server
open ExpenseTracker.L2.SqlText
open ExpenseTracker.L3.Json ExpenseTracker.L3.DbManager ExpenseTracker.L3.Routes
open ExpenseTracker.L3.Serve ExpenseTracker.L3.Records ExpenseTracker.L3.Program
open ExpenseTracker.L3.CrowDump ExpenseTracker.L3.Answers ExpenseTracker.L4.Tokens

/-- A request with a body that is valid but for its category, from a user who is
there. Its texts can stand between quotes as they are, so that what is sent is read as
the INSERT meant. -/
structure Postable (auth : Request → Int32) (ms : MySql) (db : Db) (req : Request) (x : RValue)
    (exp : Expense) : Prop where
  acting : auth req ≠ -1
  user : ∃ o ∈ db.users.rows, o.1 = auth req
  body : req.body = some x
  read : readExpenseBody (auth req) x = .ok exp
  plain : ∀ s ∈ (Stmt.insertExpense exp).strings, Plain s
  fits : ∃ row, expenseRow ms exp = some row
  room : db.Expenses.counter < 2 ^ 31

/-- A listed expense is the posted one, in category `n`: its columns are read
back as they were stored. -/
structure ListedAs (ms : MySql) (exp : Expense) (id : Int32) (n : ℤ) (e : Expense) : Prop where
  id : e.id = id
  user_id : e.user_id = exp.user_id
  category_id : e.category_id.toInt = n
  amount : ∃ cents, storeDecimal (micros exp.amount) = some cents ∧ e.amount = ofCents cents
  description : e.description = exp.description
  expense_date : ∃ d, storeDate ms exp.expense_date = some d ∧ e.expense_date = cStr d
  type : ∃ t, storeType ms exp.type = some t ∧ e.type = cStr t

def post (req : Request) : Call := ⟨.postExpenses, req, .none⟩

section

variable (C : Crypto) (auth : Request → Int32) (ms : MySql) (other : Exec Db Bytes ResultSet)

/-- The expense is answered 201, and the user's next GET lists it, whatever tame
requests come before that GET, so long as none of them deletes it. -/
def RoundTrip (db : Db) (req : Request) (exp : Expense) (n : ℤ) : Prop :=
  (∃ r, (app C auth ms other).out (.start db) (post req) = some r ∧ r.code = 201) ∧
    ∀ (calls : List Call) (get : Request),
      (∀ call ∈ calls, Tame C auth ms call ∧ call.route ≠ .deleteExpense db.Expenses.nextKey) →
      auth get = auth req →
      ∃ r e, (app C auth ms other).out
          ((app C auth ms other).after (.start db) (post req :: calls))
          ⟨.getExpenses, get, .none⟩ = some r ∧
        r.code = 200 ∧ ListedAs ms exp db.Expenses.nextKey n e ∧ Lists r.body (expenseJson e)

end

/-! ## A row stays until it is deleted -/

section Stays

variable {C : Crypto} {auth : Request → Int32} {ms : MySql} {r : Int32 × ExpenseRow}

theorem mem_Expenses_exec {db db' : Db} {q : Stmt} {rs : Option ResultSet}
    (h : exec ms db q = some (db', rs)) (hq : q ≠ .deleteExpense r.1)
    (hr : r ∈ db.Expenses.rows) : r ∈ db'.Expenses.rows := by
  cases q with
  | insertUser e n p => obtain ⟨_, _, _, _, _, rfl, _⟩ := exec_insertUser h; exact hr
  | insertExpense exp =>
    obtain ⟨_, _, _, _, hins, rfl, _⟩ := exec_insertExpense h
    show r ∈ _
    rw [(Table.insert_spec hins).1]
    exact List.mem_append_left _ hr
  | deleteExpense id =>
    rw [exec_deleteExpense] at h
    cases h
    refine Table.mem_delete.mpr ⟨hr, fun he => hq ?_⟩
    rw [he]
  | insertBudget b => obtain ⟨_, _, _, _, rfl, _⟩ := exec_insertBudget h; exact hr
  | insertSaving stx => obtain ⟨_, _, _, _, rfl, _⟩ := exec_insertSaving h; exact hr
  | insertGoal g => obtain ⟨_, _, _, _, rfl, _⟩ := exec_insertGoal h; exact hr
  | _ => rw [(exec_selects rfl h).1]; exact hr

/-- A request that does not delete the row keeps it. -/
theorem mem_Expenses_next {c : Conn Db ResultSet} (hc : Idle c) {call : Call}
    (hcall : call.route ≠ .deleteExpense r.1) (hr : r ∈ c.db.Expenses.rows) :
    r ∈ ((server C auth ms).next c call).db.Expenses.rows := by
  rw [hc.next]
  cases hs : storing C auth call with
  | none => exact hr
  | some q =>
    rw [Option.bind_some]
    cases hst : stored ms call.fault c.db q with
    | none => exact hr
    | some db' =>
      obtain ⟨_, _, he⟩ := stored_eq_some hst
      apply mem_Expenses_exec he _ hr
      intro hq
      subst hq
      exact hcall (Isolation.storing_delete hs).1

/-- So over a run, by induction on its requests. -/
theorem mem_Expenses_after {c : Conn Db ResultSet} (hc : Idle c) (hr : r ∈ c.db.Expenses.rows)
    (calls : List Call) (h : ∀ call ∈ calls, call.route ≠ .deleteExpense r.1) :
    Idle ((server C auth ms).after c calls) ∧
      r ∈ ((server C auth ms).after c calls).db.Expenses.rows := by
  induction calls generalizing c with
  | nil => exact ⟨hc, hr⟩
  | cons call calls ih =>
    obtain ⟨hcall, hrest⟩ := List.forall_mem_cons.mp h
    exact ih (server_idle c call hc) (mem_Expenses_next hc hcall hr) hrest

/-- A row of the acting user is in her list, its texts cut at a NUL. -/
theorem mem_list_of_row {c : Conn Db ResultSet} (hc : Idle c) (hr : r ∈ c.db.Expenses.rows)
    {get : Request} (ha : auth get ≠ -1) (hu : r.2.user_id = auth get) (hk : |r.2.amount| < 10 ^ 10) :
    ((server C auth ms).out c ⟨.getExpenses, get, .none⟩).code = 200 ∧
      Lists ((server C auth ms).out c ⟨.getExpenses, get, .none⟩).body
        (expenseJson (expenseOf (r.1, expenseReader.cut r.2))) := by
  have hget : (server C auth ms).out c ⟨.getExpenses, get, .none⟩ =
      listing (listed c.db (auth get) .Expenses) := by
    rw [hc.out, serve_get (c := .Expenses) rfl ha]
    rfl
  have hnull : expenseReader.hasNull c.db.Expenses (auth get) = false := by
    unfold Reader.hasNull
    rw [List.any_eq_false]
    intro r _
    exact Bool.false_ne_true
  rw [hget, listed_Expenses, expenseReader.listed_ok hnull, listing]
  refine ⟨rfl, lists_of_mem (List.mem_map.mpr ⟨r, Table.mem_select.mpr ⟨hr, ?_⟩, rfl⟩)
    (Reads.legible_expense.keyed _) ?_⟩
  · show (some r.2.user_id == some (auth get)) = true
    rw [hu, beq_self_eq_true]
  · have hamount := Reads.not_cut_ofCents hk
    simpa [expenseReader, expenseJson, expenseOf, doubles, memberDoubles] using hamount

end Stays

/-! ## The posted expense -/

section Post

variable {C : Crypto} {auth : Request → Int32} {ms : MySql} {db : Db} {req : Request} {x : RValue}
  {exp : Expense}

theorem expenseRow_eq_some {row : ExpenseRow} (h : expenseRow ms exp = some row) :
    ∃ cents d t, storeDecimal (micros exp.amount) = some cents ∧
      storeDate ms exp.expense_date = some d ∧ storeType ms exp.type = some t ∧
      row = ⟨exp.user_id, some exp.category_id, cents, some exp.description, d, some t⟩ := by
  simp only [expenseRow, Option.bind_eq_bind, Option.bind_eq_some_iff] at h
  obtain ⟨cents, hc, s, hs, d, hd, t, ht, h⟩ := h
  cases h
  rw [storeText_eq_some ms hs]
  exact ⟨cents, d, t, hc, hd, ht, rfl⟩

/-- The statement goes through exactly when the foreign key of the category is met. -/
theorem stored_post (h : Postable auth ms db req x exp) : ∃ row, expenseRow ms exp = some row ∧
    if exp.category_id ∈ db.Categories then
      ∃ db', stored ms .none db (.insertExpense exp) = some db' ∧
        db'.Expenses.rows = db.Expenses.rows ++ [(db.Expenses.nextKey, row)]
    else stored ms .none db (.insertExpense exp) = none := by
  obtain ⟨row, hrow⟩ := h.fits
  refine ⟨row, hrow, ?_⟩
  have hexec : exec ms db (.insertExpense exp) = execParam ms db (.insertExpense exp) := by
    unfold exec
    rw [if_neg]
    intro hany
    obtain ⟨s, hs, h0⟩ := List.any_eq_true.mp hany
    exact (h.plain s hs).1 (List.contains_iff_mem.mp h0)
  have huser : exp.user_id = auth req := Isolation.user_id_readExpenseBody h.read
  have hkeys : foreignKeys db row = db.Categories.contains exp.category_id := by
    obtain ⟨cents, d, t, _, _, _, rfl⟩ := expenseRow_eq_some hrow
    obtain ⟨o, ho, hid⟩ := h.user
    have hany : (db.users.rows.any fun o => o.1 == exp.user_id) = true := by
      rw [List.any_eq_true]
      exact ⟨o, ho, by rw [hid, huser, beq_self_eq_true]⟩
    show (_ && _) = _
    rw [hany, Bool.true_and]
  have hins : ∃ t, db.Expenses.insert row = some t := by
    unfold Table.insert
    rw [dif_pos h.room]
    exact ⟨_, rfl⟩
  obtain ⟨t, ht⟩ := hins
  split
  · rename_i hcat
    refine ⟨{ db with Expenses := t }, ?_, (Table.insert_spec ht).1⟩
    simp [stored, Fault.none, hexec, execParam, hrow, hkeys, hcat, ht]
  · rename_i hcat
    simp [stored, Fault.none, hexec, execParam, hrow, hkeys, hcat]

theorem storing_post (h : Postable auth ms db req x exp) :
    storing C auth (post req) = some (.insertExpense exp) :=
  Refinement.postStmt_ok h.acting h.body h.read

/-- The text sent is read as the INSERT meant. -/
theorem tame_post (C : Crypto) (h : Postable auth ms db req x exp) : Tame C auth ms (post req) := by
  refine tame_of_storing rfl ?_ fun q hq => ?_
  · intro ⟨_, _, v, l, hb⟩
    have hread := h.read
    obtain rfl : x = .list (v :: l) := Option.some.inj (h.body.symm.trans hb)
    cases hread
  · rw [storing_post h] at hq
    cases hq
    exact h.plain

/-- What the POST answers, and the row it leaves. -/
theorem post_cases (C : Crypto) (h : Postable auth ms db req x exp) :
    (exp.category_id ∉ db.Categories ∧ ((server C auth ms).out (.idle db) (post req)).code = 500) ∨
    (exp.category_id ∈ db.Categories ∧ ((server C auth ms).out (.idle db) (post req)).code = 201 ∧
      ∃ row, expenseRow ms exp = some row ∧ (db.Expenses.nextKey, row) ∈
        ((server C auth ms).next (.idle db) (post req)).db.Expenses.rows) := by
  have hs := storing_post (C := C) h
  have hout : ((server C auth ms).out (.idle db) (post req)).code =
      if (stored ms .none db (.insertExpense exp)).isSome then 201 else 500 := by
    obtain ⟨r, hr, hcode⟩ : ∃ r, serve C auth ms (post req) (.idle db) = (r, _) ∧ _ :=
      serve_storing hs
    exact (congrArg (fun x => x.1.code) hr).trans hcode
  have hnext : ((server C auth ms).next (.idle db) (post req)).db =
      (stored ms .none db (.insertExpense exp)).getD db := by
    rw [(idle_idle db).next, hs]
    rfl
  obtain ⟨row, hrow, hcases⟩ := stored_post h
  split at hcases
  · rename_i hcat
    right
    obtain ⟨db', hst, hrows⟩ := hcases
    refine ⟨hcat, by rw [hout, hst]; rfl, row, hrow, ?_⟩
    rw [hnext, hst, Option.getD_some, hrows]
    exact List.mem_append_right _ (List.mem_singleton_self _)
  · rename_i hcat
    exact Or.inl ⟨hcat, by rw [hout, hcases]; rfl⟩

/-- A stored row is listed as the posted expense. -/
theorem listedAs_row {row : ExpenseRow} (hrow : expenseRow ms exp = some row) (id : Int32)
    (hdesc : (0 : UInt8) ∉ exp.description) :
    ListedAs ms exp id exp.category_id.toInt (expenseOf (id, expenseReader.cut row)) := by
  obtain ⟨cents, d, t, hc, hd, ht, rfl⟩ := expenseRow_eq_some hrow
  refine ⟨rfl, rfl, rfl, ⟨cents, hc, rfl⟩, ?_, ⟨d, hd, rfl⟩, ⟨t, ht, rfl⟩⟩
  exact cStr_of_noNul hdesc

end Post

/-- What the process answers to the POST. -/
theorem out_post (C : Crypto) (h : Postable auth ms db req x exp) (other : Exec Db Bytes ResultSet) :
    (app C auth ms other).out (.start db) (post req) =
      some ((server C auth ms).out (.idle db) (post req)) :=
  program_out ((tame_post C h).orderly other) _

/-- Without a category, or in category 0, it is answered 500: 0 is no key of `Categories`. -/
theorem post_zero (C : Crypto) (h : Postable auth ms db req x exp) (hzero : exp.category_id = 0)
    (hpos : ∀ k ∈ db.Categories, 0 < k.toInt) :
    ((server C auth ms).out (.idle db) (post req)).code = 500 := by
  rcases post_cases C h with ⟨_, h500⟩ | ⟨hmem, _⟩
  · exact h500
  · have hlt := hpos _ hmem
    rw [hzero] at hlt
    exact absurd hlt (by decide)

/-- In a category that is there it makes it. -/
theorem roundTrip_of_mem (C : Crypto) (h : Postable auth ms db req x exp)
    (hcat : exp.category_id ∈ db.Categories) (other : Exec Db Bytes ResultSet) :
    RoundTrip C auth ms other db req exp exp.category_id.toInt := by
  rcases post_cases C h with ⟨hno, _⟩ | ⟨_, h201, row, hrow, hmem⟩
  · exact absurd hcat hno
  refine ⟨⟨_, out_post C h other, h201⟩, fun calls get hcalls hget => ?_⟩
  have hpost : Idle ((server C auth ms).next (.idle db) (post req)) := server_idle _ _ (idle_idle db)
  obtain ⟨hidle, hstays⟩ := mem_Expenses_after hpost hmem calls fun call hc => (hcalls call hc).2
  have horderly : ∀ call ∈ post req :: calls, Orderly C auth ms (execText ms other) call :=
    List.forall_mem_cons.mpr ⟨(tame_post C h).orderly other,
      fun call hc => (hcalls call hc).1.orderly other⟩
  obtain ⟨cents, d, t, hcents, _, _, rfl⟩ := expenseRow_eq_some hrow
  have ha : auth get ≠ -1 := hget ▸ h.acting
  have hu : exp.user_id = auth get := (Isolation.user_id_readExpenseBody h.read).trans hget.symm
  obtain ⟨hcode, hlists⟩ := mem_list_of_row hidle hstays ha hu (storeDecimal_lt hcents)
  refine ⟨_, _, ?_, hcode, listedAs_row hrow _ ?_, hlists⟩
  · rw [Process.start, program_after horderly]
    exact program_out ((tame_get (k := .Expenses) rfl).orderly other) _
  · exact (h.plain _ (by simp [Stmt.strings])).1

/-- **The round trip of a category.** An expense that names no category, or 0, or
a row of `Categories`, makes it exactly in the last case; without a category it is
answered 500. -/
theorem category_round_trip (C : Crypto) (auth : Request → Int32) (ms : MySql)
    (other : Exec Db Bytes ResultSet) (db : Db) (hpos : ∀ k ∈ db.Categories, 0 < k.toInt)
    (req : Request) (x : RValue) (exp : Expense) (h : Postable auth ms db req x exp) (n : ℤ)
    (hn : x.fieldOr "category_id" RValue.i 0 = .ok n)
    (hcase : n = 0 ∨ ∃ k ∈ db.Categories, k.toInt = n) :
    (RoundTrip C auth ms other db req exp n ↔ ∃ k ∈ db.Categories, k.toInt = n) ∧
    (n = 0 → ∃ r, (app C auth ms other).out (.start db) (post req) = some r ∧
      r.code = 500) := by
  have hc : exp.category_id = Int32.ofInt n := Integers.category_readExpenseBody hn h.read
  have h500 : n = 0 → ((server C auth ms).out (.idle db) (post req)).code = 500 := by
    rintro rfl
    exact post_zero C h hc hpos
  refine ⟨⟨?_, ?_⟩, fun h0 => ⟨_, out_post C h other, h500 h0⟩⟩
  · intro ⟨⟨r, hr, hcode⟩, _⟩
    rcases hcase with h0 | hk
    · rw [out_post C h other] at hr
      cases hr
      rw [h500 h0] at hcode
      cases hcode
    · exact hk
  · intro ⟨k, hk, hkn⟩
    have hcat : exp.category_id = k := by
      rw [hc, ← hkn, Int32.ofInt_toInt]
    rw [← hkn, ← hcat]
    exact roundTrip_of_mem C h (hcat ▸ hk) other

/-- Ann is registered, and posts a body that reads as one of the forms. -/
theorem postable_ann (form : Refinement.ExpenseForm MySql.plain) {x : RValue}
    (hr : readExpenseBody 1 x = .ok (form.record 0 1))
    (hplain : ∀ s ∈ [form.description, form.expense_date, form.type], Plain s) :
    Postable (authenticate Crypto.zero) MySql.plain Refinement.annsHome (bearer annToken (some x)) x
      (form.record 0 1) where
  acting := Refinement.acting_ann .postExpenses _ .none
  user := ⟨_, List.mem_cons_self, (Reads.authenticate_ann _).symm⟩
  body := rfl
  read := by rw [Reads.authenticate_ann]; exact hr
  plain := hplain
  fits := ⟨_, Refinement.expenseRow_form form⟩
  room := by decide

theorem categories_ann : ∀ k ∈ Refinement.annsHome.Categories, 0 < k.toInt := by
  have hall : Refinement.annsHome.Categories.all (fun k => decide (0 < k.toInt)) = true := by
    decide
  intro k hk
  exact of_decide_eq_true (List.all_eq_true.mp hall k hk)

/-- Ann's lunch in category 1 makes it. -/
theorem category_round_trip_lunch : RoundTrip Crypto.zero (authenticate Crypto.zero) MySql.plain
    (fun _ _ => none) Refinement.annsHome (bearer annToken (some Refinement.lunchBody))
    (Refinement.lunchForm.record 0 1) 1 :=
  (category_round_trip Crypto.zero (authenticate Crypto.zero) MySql.plain (fun _ _ => none)
    Refinement.annsHome categories_ann (bearer annToken (some Refinement.lunchBody))
    Refinement.lunchBody (Refinement.lunchForm.record 0 1)
    (postable_ann _ (Refinement.readExpenseBody_form Refinement.lunchForm_body) (by decide)) 1 rfl
    (Or.inr ⟨1, by decide, rfl⟩)).1.mpr ⟨1, by decide, rfl⟩

/-- Lunch without a category. -/
def bareForm : Refinement.ExpenseForm MySql.plain := { Refinement.lunchForm with category_id := 0 }

/-- Its body, which leaves the key out. -/
def bareLunch : RValue := .object
  [(ascii "description", jsonString "lunch"), (ascii "amount", .number ⟨false, 12, 5, 1, 0⟩),
    (ascii "expense_date", jsonString "2024-05-01")]

theorem readExpenseBody_bare : readExpenseBody 1 bareLunch = .ok (bareForm.record 0 1) := by
  have hvalue : Number.value ⟨false, 12, 5, 1, 0⟩ = ((1250 : ℤ) : ℚ) / 100 := by
    norm_num [Number.value]
  have hamount : bareLunch.field "amount" RValue.d = .ok (ofCents 1250) := by
    show Except.ok (Double.ofRat (Number.value ⟨false, 12, 5, 1, 0⟩)) = _
    rw [hvalue]
    rfl
  unfold readExpenseBody
  rw [hamount]
  rfl

/-- It is valid but for the category, and answered 500. -/
theorem category_round_trip_bare :
    bareLunch.fieldOr "category_id" RValue.i 0 = .ok 0 ∧
    Postable (authenticate Crypto.zero) MySql.plain Refinement.annsHome
      (bearer annToken (some bareLunch)) bareLunch (bareForm.record 0 1) ∧
    (∃ r, (app Crypto.zero (authenticate Crypto.zero) MySql.plain fun _ _ => none).out
      (.start Refinement.annsHome) (post (bearer annToken (some bareLunch))) = some r ∧
      r.code = 500) ∧
    ¬ RoundTrip Crypto.zero (authenticate Crypto.zero) MySql.plain (fun _ _ => none)
      Refinement.annsHome (bearer annToken (some bareLunch)) (bareForm.record 0 1) 0 := by
  have hpost := postable_ann bareForm readExpenseBody_bare (by decide)
  have hout := out_post Crypto.zero hpost fun _ _ => none
  have hcode := post_zero Crypto.zero hpost rfl categories_ann
  refine ⟨rfl, hpost, ⟨_, hout, hcode⟩, ?_⟩
  intro ⟨⟨r, hr, h201⟩, _⟩
  rw [Option.some.inj (hr.symm.trans hout), hcode] at h201
  cases h201

end ExpenseTracker.L4.Categorised
