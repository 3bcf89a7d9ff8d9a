import ExpenseTracker.L3Server.Answers
import ExpenseTracker.L3Server.Records
import ExpenseTracker.L4Service.Tokens

/-!
# Reads under failure

Whether a GET that is answered 200 shows the user's rows, for every outcome
of the two library calls behind it. The answer is judged as it is parsed.

* `Legible.decoded_iff`: a list is decoded as its rows exactly when no text of them
  ends early and no double of them is cut.
* `reads_honest_iff`: a GET is honest exactly when both calls succeed and its list is
  so decoded (or a NULL amount makes it a 500); a failed call is answered 200 with no
  rows, where a POST or DELETE answers 500 (`serve_storing`).
-/
namespace ExpenseTracker.L4.Reads

open ExpenseTracker.Core ExpenseTracker.L1.Amount ExpenseTracker.L1.Password
open ExpenseTracker.L2.Schema ExpenseTracker.L2.Statement ExpenseTracker.L2.Server
open ExpenseTracker.L3.Json ExpenseTracker.L3.Routes ExpenseTracker.L3.Serve ExpenseTracker.L3.Records
open ExpenseTracker.L3.CrowDump ExpenseTracker.L3.Answers
open ExpenseTracker.L4.Tokens

/-! ## What is parsed of a record -/

theorem expense_names : (["id", "user_id", "category_id", "amount", "description", "expense_date",
    "type"].map ascii).Nodup := by decide

theorem budget_names : (["id", "category_name", "target_amount"].map ascii).Nodup := by decide

theorem saving_names : (["id", "amount", "description", "transaction_date"].map ascii).Nodup := by
  decide

theorem goal_names : (["id", "title", "target_amount", "saved_amount", "deadline",
    "priority"].map ascii).Nodup := by decide

/-- A record that shows in what another was written as has its id; and with its amounts
it is written alike, and none of them is cut. -/
theorem shows_expense {e e' : Expense} (h : Shows (expenseJson e) (out (expenseJson e')).value) :
    e.id = e'.id ∧ (e.amount = e'.amount →
      expenseJson e = expenseJson e' ∧ ∀ x ∈ doubles (expenseJson e), ¬ Cut x) := by
  unfold expenseJson at h
  have hm := shows_members (by rfl) (by exact expense_names) h
  simp only [List.map_cons, List.map_nil, showsMembers_cons, shows_int_iff, shows_string_iff,
    true_and] at hm
  obtain ⟨hid, hu, hc, hx, hd, ht, hy, _⟩ := hm
  refine ⟨hid, fun ha => ⟨?_, ?_⟩⟩
  · unfold expenseJson
    rw [hid, hu, hc, ha, hd, ht, hy]
  · rw [← ha, number_shows] at hx
    simpa [expenseJson, doubles, memberDoubles] using hx

theorem shows_budget {b b' : Budget} (h : Shows (budgetJson b) (out (budgetJson b')).value) :
    b.id = b'.id ∧ (b.target_amount = b'.target_amount →
      budgetJson b = budgetJson b' ∧ ∀ x ∈ doubles (budgetJson b), ¬ Cut x) := by
  unfold budgetJson at h
  have hm := shows_members (by rfl) (by exact budget_names) h
  simp only [List.map_cons, List.map_nil, showsMembers_cons, shows_int_iff, shows_string_iff,
    true_and] at hm
  obtain ⟨hid, hc, hx, _⟩ := hm
  refine ⟨hid, fun ha => ⟨?_, ?_⟩⟩
  · unfold budgetJson
    rw [hid, hc, ha]
  · rw [← ha, number_shows] at hx
    simpa [budgetJson, doubles, memberDoubles] using hx

theorem shows_saving {s s' : SavingTx} (h : Shows (savingJson s) (out (savingJson s')).value) :
    s.id = s'.id ∧ (s.amount = s'.amount →
      savingJson s = savingJson s' ∧ ∀ x ∈ doubles (savingJson s), ¬ Cut x) := by
  unfold savingJson at h
  have hm := shows_members (by rfl) (by exact saving_names) h
  simp only [List.map_cons, List.map_nil, showsMembers_cons, shows_int_iff, shows_string_iff,
    true_and] at hm
  obtain ⟨hid, hx, hd, ht, _⟩ := hm
  refine ⟨hid, fun ha => ⟨?_, ?_⟩⟩
  · unfold savingJson
    rw [hid, ha, hd, ht]
  · rw [← ha, number_shows] at hx
    simpa [savingJson, doubles, memberDoubles] using hx

theorem shows_goal {g g' : Goal} (h : Shows (goalJson g) (out (goalJson g')).value) :
    g.id = g'.id ∧ (g.target_amount = g'.target_amount → g.saved_amount = g'.saved_amount →
      goalJson g = goalJson g' ∧ ∀ x ∈ doubles (goalJson g), ¬ Cut x) := by
  unfold goalJson at h
  have hm := shows_members (by rfl) (by exact goal_names) h
  simp only [List.map_cons, List.map_nil, showsMembers_cons, shows_int_iff, shows_string_iff,
    true_and] at hm
  obtain ⟨hid, ht, hx, hy, hd, hp, _⟩ := hm
  refine ⟨hid, fun ha hs => ⟨?_, ?_⟩⟩
  · unfold goalJson
    rw [hid, ht, ha, hs, hd, hp]
  · rw [← ha, number_shows] at hx
    rw [← hs, number_shows] at hy
    simpa [goalJson, doubles, memberDoubles] using ⟨hx, hy⟩

/-- An amount of money has no exponent. -/
theorem not_cut_ofCents {k : ℤ} (hk : |k| < 10 ^ 10) : ¬ Cut (ofCents k) := by
  refine not_cut_of_size fun hne => ?_
  have herr := abs_nearest_sub_le_of_lt (abs_cents_lt hk)
  have hval : (ofCents k).val = nearest ((k : ℚ) / 100) := rfl
  rw [← hval] at herr
  have hk0 : k ≠ 0 := by
    rintro rfl
    exact hne (if_pos (by norm_num))
  have hcent : (1 : ℚ) / 100 ≤ |(k : ℚ) / 100| := by
    rw [abs_div, abs_of_pos (by norm_num : (0 : ℚ) < 100)]
    have h1 : (1 : ℚ) ≤ |(k : ℚ)| := by exact_mod_cast Int.one_le_abs hk0
    linarith
  have hlarge := abs_cents_lt hk
  have htri1 := abs_sub_abs_le_abs_sub ((k : ℚ) / 100) (ofCents k).val
  have htri2 := abs_sub_abs_le_abs_sub (ofCents k).val ((k : ℚ) / 100)
  rw [abs_sub_comm] at htri1
  norm_num at herr hlarge ⊢
  constructor <;> linarith

/-- The lists of a collection are parsed record by record. -/
structure Legible {ρ α : Type} (R : Reader ρ α) : Prop where
  keyed : ∀ a, Keyed (R.json a)
  id : ∀ r r' : Int32 × ρ,
    Shows (R.json (R.ofRow r)) (out (R.json (R.ofRow (r'.1, R.cut r'.2)))).value → r.1 = r'.1
  whole : ∀ r : Int32 × ρ,
    Shows (R.json (R.ofRow r)) (out (R.json (R.ofRow (r.1, R.cut r.2)))).value →
      R.json (R.ofRow r) = R.json (R.ofRow (r.1, R.cut r.2)) ∧
        ∀ x ∈ doubles (R.json (R.ofRow r)), ¬ Cut x

theorem legible_expense : Legible expenseReader where
  keyed _ := ⟨expense_names, trivial, trivial, trivial, trivial, trivial, trivial, trivial, trivial⟩
  id _ _ h := (shows_expense h).1
  whole _ h := (shows_expense h).2 rfl

theorem legible_budget : Legible budgetReader where
  keyed _ := ⟨budget_names, trivial, trivial, trivial, trivial⟩
  id _ _ h := (shows_budget h).1
  whole _ h := (shows_budget h).2 rfl

theorem legible_saving : Legible savingReader where
  keyed _ := ⟨saving_names, trivial, trivial, trivial, trivial, trivial⟩
  id _ _ h := (shows_saving h).1
  whole _ h := (shows_saving h).2 rfl

theorem legible_goal : Legible goalReader where
  keyed _ := ⟨goal_names, trivial, trivial, trivial, trivial, trivial, trivial, trivial⟩
  id _ _ h := (shows_goal h).1
  whole _ h := (shows_goal h).2 rfl rfl

/-- The rows as they are listed, with their texts cut, are decoded as the rows exactly when
no text and no double of them is cut. -/
theorem Legible.decoded_iff {ρ α : Type} {R : Reader ρ α} (hR : Legible R) (t : Table ρ) (u : Int32) :
    Decoded (.json (.ofList ((R.rows t u).map fun r => R.json (R.ofRow (r.1, R.cut r.2)))))
      (R.shown t u) ↔ R.Plain t u ∧ ∀ x ∈ listDoubles (R.shown t u), ¬ Cut x := by
  constructor
  · intro ⟨v, hv, hdec⟩
    cases hv
    obtain ⟨V, vs, hparses, hperm, hshows⟩ := hdec _ (Held.refl _)
    have hV : V = _ := hparses.unique (parses_dump _)
    rw [hV, listOf_outs] at hperm
    have row : ∀ r ∈ R.rows t u, R.json (R.ofRow r) = R.json (R.ofRow (r.1, R.cut r.2)) ∧
        ∀ x ∈ doubles (R.json (R.ofRow r)), ¬ Cut x := by
      intro r hr
      obtain ⟨W, hW, hs⟩ := showsAll_mem hshows (List.mem_map_of_mem hr)
      obtain ⟨_, hx, rfl⟩ := List.mem_map.mp (hperm.mem_iff.mpr hW)
      obtain ⟨r', hr', rfl⟩ := List.mem_map.mp hx
      -- the entry it shows in is its own, since ids differ
      obtain rfl := List.inj_on_of_nodup_map t.nodup (Table.mem_select.mp hr).1
        (Table.mem_select.mp hr').1 (hR.id r r' hs)
      exact hR.whole r hs
    refine ⟨fun r hr => R.json_cut r r (row r hr).1, fun x hx => ?_⟩
    obtain ⟨v, hv, hxv⟩ := mem_listDoubles hx
    obtain ⟨r, hr, rfl⟩ := List.mem_map.mp hv
    exact (row r hr).2 x hxv
  · intro ⟨hplain, hcut⟩
    have hlist : ((R.rows t u).map fun r => R.json (R.ofRow (r.1, R.cut r.2))) = R.shown t u :=
      List.map_congr_left fun r hr => by rw [R.cut_plain r.2 (hplain r hr)]
    rw [hlist]
    refine ⟨_, rfl, fun v' hh => ?_⟩
    have hkeyed : KeyedAll (R.shown t u) := keyedAll_of fun v hv => by
      obtain ⟨r, _, rfl⟩ := List.mem_map.mp hv
      exact hR.keyed _
    obtain ⟨V, hparses, hshows⟩ := list_shows hkeyed hcut hh
    exact ⟨V, _, hparses, .refl _, hshows⟩

/-! ## The routes -/

/-- No double of the user's rows loses a zero of its exponent in the answer. -/
def Uncut (db : Db) (u : Int32) (k : Collection) : Prop := ∀ x ∈ listDoubles (shown db u k), ¬ Cut x

/-- What a collection reads as, and whether it is decoded as the user's rows. -/
theorem listed_cases (db : Db) (u : Int32) (k : Collection) :
    (hasNull db u k = true ∧ ∃ e, listed db u k = .error e) ∨
      (hasNull db u k = false ∧ ∃ l, listed db u k = .ok l ∧
        (Decoded (.json (.ofList l)) (shown db u k) ↔ PlainTexts db u k ∧ Uncut db u k)) := by
  have reader : ∀ {ρ α : Type} {R : Reader ρ α} (hR : Legible R) (t : Table ρ),
      (R.hasNull t u = true ∧ ∃ e, R.listed t u = .error e) ∨
        (R.hasNull t u = false ∧ ∃ l, R.listed t u = .ok l ∧
          (Decoded (.json (.ofList l)) (R.shown t u) ↔
            R.Plain t u ∧ ∀ x ∈ listDoubles (R.shown t u), ¬ Cut x)) := by
    intro ρ α R hR t
    cases h : R.hasNull t u with
    | true => exact Or.inl ⟨rfl, R.listed_error h⟩
    | false => exact Or.inr ⟨rfl, _, R.listed_ok h, hR.decoded_iff t u⟩
  cases k with
  | Expenses =>
    rw [listed_Expenses]
    exact reader legible_expense db.Expenses
  | Budgets => exact reader legible_budget db.Budgets
  | Savings => exact reader legible_saving db.Savings
  | Goals => exact reader legible_goal db.Goals

/-- A GET that does not hide a failure: 200 only with a body that is decoded as the user's
rows, each once, and never after a failed call. -/
def Honest (C : Crypto) (auth : Request → Int32) (ms : MySql) (db : Db) (call : Call)
    (k : Collection) : Prop :=
  ((serve C auth ms call (.idle db)).1.code = 200 →
    Decoded (serve C auth ms call (.idle db)).1.body (shown db (auth call.req) k)) ∧
  (call.fault.query = true ∨ call.fault.store = true →
    (serve C auth ms call (.idle db)).1.code ≠ 200)

theorem honest_iff (C : Crypto) {auth : Request → Int32} (ms : MySql) (db : Db) {call : Call}
    {k : Collection} (hroute : call.route = k.getRoute) (ha : auth call.req ≠ -1) :
    Honest C auth ms db call k ↔
      call.fault.query = false ∧ call.fault.store = false ∧
        (hasNull db (auth call.req) k = true ∨
          PlainTexts db (auth call.req) k ∧ Uncut db (auth call.req) k) := by
  unfold Honest
  rw [serve_get hroute ha]
  cases hf : call.fault.query || call.fault.store with
  | true =>
    -- a failed call reads as the empty list, and that is a 200
    have hfail : call.fault.query = true ∨ call.fault.store = true := by simpa using hf
    refine ⟨?_, ?_⟩
    · intro ⟨_, h⟩
      exact absurd rfl (h hfail)
    · intro ⟨hq, hs, _⟩
      rw [hq, hs] at hf
      cases hf
  | false =>
    obtain ⟨hq, hs⟩ : call.fault.query = false ∧ call.fault.store = false := by simpa using hf
    simp only [hq, hs, Bool.false_eq_true, if_false, or_self, false_implies, and_true, true_and]
    rcases listed_cases db (auth call.req) k with ⟨hn, e, he⟩ | ⟨hn, l, hl, hdec⟩
    · simp [he, hn, listing]
    · simp [hl, hn, listing, hdec]

/-- **Reads under failure.** -/
theorem reads_honest_iff (C : Crypto) (auth : Request → Int32) (ms : MySql) (db : Db) (call : Call)
    (k : Collection) (hroute : call.route = k.getRoute) (ha : auth call.req ≠ -1) :
    Honest C auth ms db call k ↔
      call.fault.query = false ∧ call.fault.store = false ∧
        (hasNull db (auth call.req) k = true ∨
          PlainTexts db (auth call.req) k ∧ Uncut db (auth call.req) k) :=
  honest_iff C ms db hroute ha

/-- User 1 has one expense. -/
def annsDb : Db where
  __ := Db.migrated
  Expenses := ⟨[(1, ⟨1, some 1, 1250, some (ascii "lunch"), ascii "2024-05-01", none⟩)], 2, by decide,
    by decide⟩

theorem authenticate_ann (body : Option RValue) :
    authenticate Crypto.zero (bearer annToken body) = 1 := by
  rw [Gate.authenticate_bearer (t := annToken) Crypto.zero rfl, annToken, verifyJWT_generateJWT]

theorem uncut_ann : Uncut annsDb 1 .Expenses := by
  intro x hx
  obtain rfl : x = ofCents 1250 := by simpa [shown, Reader.shown, Reader.rows, expenseReader, annsDb,
    Table.select, expenseOf, expenseJson, listDoubles, doubles, memberDoubles] using hx
  exact not_cut_ofCents (by decide)

/-- With both calls carried out her list is right. -/
theorem reads_honest_ann : Honest Crypto.zero (authenticate Crypto.zero) MySql.plain annsDb
    ⟨.getExpenses, bearer annToken none, .none⟩ .Expenses := by
  have ha := authenticate_ann none
  refine (reads_honest_iff Crypto.zero (authenticate Crypto.zero) MySql.plain annsDb
    ⟨.getExpenses, bearer annToken none, .none⟩ .Expenses rfl (by rw [ha]; decide)).mpr
    ⟨rfl, rfl, Or.inr ?_⟩
  rw [ha]
  refine ⟨?_, uncut_ann⟩
  intro r hr
  cases List.mem_singleton.mp (Table.mem_select.mp hr).1
  decide

/-- A failing query, and a failing fetch, both show her an empty list. -/
theorem reads_hide_ann :
    ¬ Honest Crypto.zero (authenticate Crypto.zero) MySql.plain annsDb
        ⟨.getExpenses, bearer annToken none, ⟨true, false⟩⟩ .Expenses ∧
      ¬ Honest Crypto.zero (authenticate Crypto.zero) MySql.plain annsDb
        ⟨.getExpenses, bearer annToken none, ⟨false, true⟩⟩ .Expenses := by
  have ha : authenticate Crypto.zero (bearer annToken none) ≠ -1 := by
    rw [authenticate_ann]
    decide
  have hidden : ∀ f : Fault, (f.query || f.store) = true →
      (serve Crypto.zero (authenticate Crypto.zero) MySql.plain
        ⟨.getExpenses, bearer annToken none, f⟩ (.idle annsDb)).1.code = 200 := by
    intro f hf
    have hget : serve Crypto.zero (authenticate Crypto.zero) MySql.plain
        ⟨.getExpenses, bearer annToken none, f⟩ (.idle annsDb) = _ :=
      serve_get (c := .Expenses) rfl ha
    rw [hget]
    simp only [hf, if_true]
    rfl
  refine ⟨?_, ?_⟩
  · intro ⟨_, h⟩
    exact h (Or.inl rfl) (hidden ⟨true, false⟩ rfl)
  · intro ⟨_, h⟩
    exact h (Or.inr rfl) (hidden ⟨false, true⟩ rfl)

end ExpenseTracker.L4.Reads
