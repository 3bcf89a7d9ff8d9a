import ExpenseTracker.L3Server.Records
import ExpenseTracker.L5Pages.Batch

/-!
# The box above the rows

The box in the header of the table is ticked when as many ids are selected as rows are
displayed. The two lists have no entry twice, and so it is right unless selected ids are
hidden: it then counts them for rows.

* `clicked`: the page under the clicks of a user.
* `Distinct`: no list of the page or of an answer repeats an id; `distinct_next`.
* `tells_iff`: the states in which the box is right.
* `header_tells`: whole runs.
-/
namespace ExpenseTracker.L5.Header

open ExpenseTracker.Core ExpenseTracker.L1.Password
open ExpenseTracker.L2.Schema ExpenseTracker.L2.Statement ExpenseTracker.L2.Server
open ExpenseTracker.L3.Json ExpenseTracker.L3.Records ExpenseTracker.L3.Routes
open ExpenseTracker.L3.Serve ExpenseTracker.L4.Tokens
open ExpenseTracker.L5.Http ExpenseTracker.L5.Transactions ExpenseTracker.L5.Batch

abbrev Page := World State Cont Fetch (Conn Db ResultSet) Response

/-! ## The boxes -/

/-- mirrors src/frontend/src/pages/Transactions.jsx:132 -/
def headerChecked (s : State) : Bool :=
  decide (0 < s.displayed.length) && s.selectedIds.length == s.displayed.length

/-- The box is ticked exactly when there is a row and every row is ticked. -/
def Tells (s : State) : Prop :=
  headerChecked s = true ↔ s.displayed ≠ [] ∧ ∀ id ∈ s.displayed, id ∈ s.ticked

/-- `e.target.checked` of a click is the opposite of what the box shows. -/
def click (s : State) : Action → Action
  | .headerCheck _ => .headerCheck (!headerChecked s)
  | .check id _ => .check id (!s.selectedIds.contains id)
  | a => a

/-- The page, with what the browser reports of a click. -/
def clicked : AsyncClient State Action Cont Fetch Response :=
  ⟨fun s a => act s (click s a), resume⟩

/-- The selected ids without a row on the screen. -/
def hidden (s : State) : List Int32 := s.selectedIds.filter fun id => !s.displayed.contains id

/-- The rows on the screen that are not ticked. -/
def unticked (s : State) : List Int32 := s.displayed.filter fun id => !s.selectedIds.contains id

/-! ## Counting -/

/-- Two lists without repetition exceed what they share each by what the other lacks. -/
theorem length_add_missing {α : Type} [DecidableEq α] {xs ys : List α} (hx : xs.Nodup)
    (hy : ys.Nodup) :
    xs.length + (ys.filter fun y => !xs.contains y).length =
      ys.length + (xs.filter fun x => !ys.contains x).length := by
  have hshared : (xs.filter fun x => ys.contains x).Perm (ys.filter fun y => xs.contains y) := by
    refine (List.perm_ext_iff_of_nodup (hx.filter _) (hy.filter _)).mpr fun z => ?_
    simp only [List.mem_filter, List.contains_iff_mem]
    exact And.comm
  have hlen := hshared.length_eq
  have hxs := List.length_eq_length_filter_add (l := xs) fun x => ys.contains x
  have hys := List.length_eq_length_filter_add (l := ys) fun y => xs.contains y
  omega

theorem hidden_iff (s : State) : hidden s = [] ↔ AllShown s := by
  unfold hidden AllShown
  rw [List.filter_eq_nil_iff]
  simp

theorem unticked_iff (s : State) : unticked s = [] ↔ ∀ id ∈ s.displayed, id ∈ s.ticked := by
  unfold unticked State.ticked
  rw [List.filter_eq_nil_iff]
  simp only [List.mem_filter, List.contains_iff_mem, Bool.not_eq_true', Bool.not_eq_false]
  exact forall₂_congr fun id hid => (and_iff_right hid).symm

theorem headerChecked_iff {s : State} (hsel : s.selectedIds.Nodup) (hdisp : s.displayed.Nodup) :
    headerChecked s = true ↔ s.displayed ≠ [] ∧ (hidden s).length = (unticked s).length := by
  have hcount : s.selectedIds.length + (unticked s).length = s.displayed.length +
      (hidden s).length := length_add_missing hsel hdisp
  unfold headerChecked
  rw [Bool.and_eq_true, decide_eq_true_eq, beq_iff_eq, List.length_pos_iff]
  refine and_congr_right fun _ => ?_
  omega

/-- **When the box is right.** No selected id is hidden, or their number is not by chance
that of the rows left unticked. -/
theorem tells_iff {s : State} (hsel : s.selectedIds.Nodup) (hdisp : s.displayed.Nodup) :
    Tells s ↔ s.displayed = [] ∨ AllShown s ∨
      unticked s ≠ [] ∧ (hidden s).length ≠ (unticked s).length := by
  unfold Tells
  rw [headerChecked_iff hsel hdisp, ← unticked_iff, ← hidden_iff]
  by_cases hnil : s.displayed = []
  · simp [hnil]
  by_cases hu : unticked s = []
  · simp [hnil, hu]
  · by_cases hh : hidden s = []
    · have hpos := List.length_pos_iff.mpr hu
      simp [hnil, hu, hh]
      omega
    · simp [hnil, hu, hh]

/-! ## No id twice -/

/-- What is known of a request by the continuation that waits for its answer. -/
def Asks : Cont → Fetch → Prop
  | .expenses, q => q.route = .getExpenses
  | .single _ captured, _ => captured.Nodup
  | .batch _, _ => True

/-- The ids of an answer to GET /api/expenses. -/
def answeredIds (res : Response) : List Int32 := (expensesOf res.body).map Expense.id

/-- What a callback leaves and sends repeats no id. -/
structure Apart (r : Effect) : Prop where
  selected : r.1.selectedIds.Nodup
  rows : (r.1.expenses.map Expense.id).Nodup
  asks : ∀ p ∈ r.2, Asks p.1 p.2

section Callbacks

variable {s : State} (hs : Apart (s, []))

include hs

theorem Apart.displayed : s.displayed.Nodup :=
  hs.rows.sublist (List.filter_sublist.map Expense.id)

theorem Apart.checkAuth : Apart (s.checkAuth, []) := by
  unfold State.checkAuth
  cases s.token with
  | none => exact ⟨hs.selected, hs.rows, hs.asks⟩
  | some token => exact hs

theorem Apart.set {ids : List Int32} (hids : ids.Nodup) :
    Apart (s.set fun s => { s with selectedIds := ids }, []) := by
  unfold State.set
  split
  · exact hs
  · exact ⟨hids, hs.rows, hs.asks⟩

theorem Apart.deleted : Apart (Transactions.deleted s) := by
  have hfetch : Apart (fetchExpenses s) := by
    unfold fetchExpenses
    split
    · exact hs.checkAuth
    · refine ⟨hs.selected, hs.rows, fun p hp => ?_⟩
      rw [List.mem_singleton.mp hp]
      rfl
  unfold Transactions.deleted State.showToast State.set
  refine ⟨?_, ?_, hfetch.asks⟩
  · dsimp only
    split <;> exact hfetch.selected
  · dsimp only
    split <;> exact hfetch.rows

theorem Apart.executeDelete : Apart (Transactions.executeDelete s) := by
  have hauth := hs.checkAuth
  unfold Transactions.executeDelete
  dsimp only
  split
  · refine ⟨hauth.selected, hauth.rows, fun p hp => ?_⟩
    rw [List.mem_singleton.mp hp]
    exact hs.selected
  split
  · exact (hauth.set List.nodup_nil).deleted
  · refine ⟨hauth.selected, hauth.rows, fun p hp => ?_⟩
    obtain ⟨id, _, rfl⟩ := List.mem_map.mp hp
    exact trivial

/-- A click repeats no id: the box of a selected row unticks it. -/
theorem apart_act (a : Action) : Apart (act s (click s a)) := by
  unfold act
  split
  · cases a with
    | headerCheck checked =>
      refine ⟨?_, hs.rows, hs.asks⟩
      show (if (!headerChecked s) = true then s.displayed else []).Nodup
      split
      · exact hs.displayed
      · exact List.nodup_nil
    | check id checked =>
      refine ⟨?_, hs.rows, hs.asks⟩
      show (if (!s.selectedIds.contains id) = true then s.selectedIds ++ [id]
        else s.selectedIds.filter (· != id)).Nodup
      split
      · rename_i hnew
        rw [← List.concat_eq_append]
        exact hs.selected.concat (by simpa using hnew)
      · exact hs.selected.filter _
    | executeDelete => exact hs.executeDelete
    | _ => exact ⟨hs.selected, hs.rows, hs.asks⟩
  · exact hs

/-- Code behind an `await` repeats none either. -/
theorem apart_resume {k : Cont} {q : Fetch} (hk : Asks k q) {res : Option Response}
    (hres : ∀ r, k = .expenses → res = some r → (answeredIds r).Nodup) :
    Apart (resume s k res) := by
  cases k with
  | expenses =>
    show Apart (gotExpenses s res)
    cases res with
    | none => exact hs
    | some res =>
      unfold gotExpenses State.set
      dsimp only
      split
      · exact ⟨hs.selected, hs.rows, hs.asks⟩
      split
      · split
        · exact hs
        split
        · exact hs
        · refine ⟨hs.selected, ?_, hs.asks⟩
          rw [List.map_reverse, List.nodup_reverse]
          exact hres res rfl rfl
      · exact hs
  | single i captured =>
    show Apart (gotSingle s i captured res)
    cases res with
    | none => exact hs
    | some res => exact (hs.set (List.Nodup.filter (· != i) hk)).deleted
  | batch b =>
    show Apart (gotBatch s b res)
    unfold gotBatch
    split
    · exact hs
    cases res with
    | none => exact ⟨hs.selected, hs.rows, hs.asks⟩
    | some res =>
      have hothers : Apart ({ s with batches := s.batches.filter fun p => p.1 != b }, []) :=
        ⟨hs.selected, hs.rows, hs.asks⟩
      dsimp only
      split
      · exact (hothers.set List.nodup_nil).deleted
      · exact ⟨hs.selected, hs.rows, hs.asks⟩

end Callbacks

/-! ## Runs -/

section Runs

variable (C : Crypto) (auth : Request → Int32) (ms : MySql)

/-- The list of a user has no id twice. -/
theorem handled_distinct {c : Conn Db ResultSet} (hc : Idle c) {q : Fetch}
    (hq : q.route = .getExpenses) (f : Fault) :
    (answeredIds (handled C auth ms c q f).1).Nodup := by
  unfold handled answeredIds
  by_cases ha : auth q.req = -1
  · have hno : serve C auth ms (q.call f) c = (respond 401 "Unauthorized", c) :=
      serve_unauthorized (by unfold Fetch.call; rw [hq]; rfl) ha c
    rw [hno]
    exact List.nodup_nil
  · have hget : serve C auth ms (q.call f) (.idle c.db) = _ :=
      serve_get (c := .Expenses) hq ha
    rw [hc.eq, hget]
    split
    · exact List.nodup_nil
    · rw [listed_Expenses, expenseReader.listed_ok]
      · have hids : (expensesOf (listing (.ok ((expenseReader.rows c.db.Expenses
            (auth (q.call f).req)).map fun r => expenseReader.json (expenseReader.ofRow
              (r.1, expenseReader.cut r.2))))).body).map Expense.id =
            (expenseReader.rows c.db.Expenses (auth (q.call f).req)).map Prod.fst := by
          show (expensesOf (.json (.ofList ((expenseReader.rows c.db.Expenses
            (auth (q.call f).req)).map (expenseJson ∘ fun r => expenseOf
              (r.1, expenseReader.cut r.2)))))).map Expense.id = _
          rw [← List.map_map, expensesOf_expenseJson, List.map_map]
          rfl
        rw [hids]
        exact c.db.Expenses.nodup.sublist (List.filter_sublist.map Prod.fst)
      · exact List.any_eq_false.mpr fun r _ => Bool.false_ne_true

/-- What every run of the page keeps. -/
structure Distinct (w : Page) : Prop where
  idle : Idle w.server
  page : Apart (w.page, [])
  asks : ∀ x ∈ w.flight, Asks x.cont x.request
  answers : ∀ s, AsyncClient.Answered w .expenses s → (answeredIds s.answer).Nodup

variable {C auth ms}

theorem distinct_next {w w' : Page} {e : Event Action Fault}
    (h : AsyncClient.Happens clicked (handled C auth ms) w e w') (hw : Distinct w) :
    Distinct w' := by
  have hresume : ∀ k res, AsyncClient.resumed w e = some (k, res) →
      Apart (resume w.page k res) := by
    intro k res hres
    obtain ⟨x, hx, rfl⟩ := AsyncClient.resumed_cont hres
    refine apart_resume hw.page (hw.asks x hx) fun r hk hr => ?_
    rw [hk, hr] at hres
    obtain ⟨s, hs, rfl⟩ := AsyncClient.resumed_answered hres
    exact hw.answers s hs
  constructor
  · exact idle_next h hw.idle
  · have hnothing : ∀ p ∈ ([] : List (Cont × Fetch)), Asks p.1 p.2 := hw.page.asks
    rcases h.page with ⟨a, rfl, hpage⟩ | ⟨k, res, hk, hpage⟩ | ⟨_, _, hpage⟩
    · have hact := apart_act hw.page a
      rw [hpage]
      exact ⟨hact.selected, hact.rows, hnothing⟩
    · have hres := hresume k res hk
      rw [hpage]
      exact ⟨hres.selected, hres.rows, hnothing⟩
    · rw [hpage]
      exact hw.page
  · refine h.requests hw.asks ?_ ?_
    · intro a _
      exact (apart_act hw.page a).asks
    · intro k res hk
      exact (hresume k res hk).asks
  · intro s hs
    rcases h.answered hs with ⟨hold, _⟩ | ⟨n, f, q, rfl, _, _, hold | ⟨hn, rfl⟩⟩
    · exact hw.answers s hold
    · exact hw.answers s hold
    · exact handled_distinct C auth ms hw.idle
        (hw.asks ⟨.expenses, q, none⟩ (List.mem_of_getElem? hn)) f

theorem distinct_boot (token : Option Bytes) (db : Db) :
    Distinct (AsyncClient.boot (mount token) (.idle db)) where
  idle := idle_idle db
  page := by
    cases token <;> exact ⟨List.nodup_nil, List.nodup_nil, fun p hp => absurd hp List.not_mem_nil⟩
  asks := by
    intro x hx
    cases token with
    | none => cases hx
    | some token =>
      rw [List.mem_singleton.mp hx]
      rfl
  answers := by
    intro s hs
    rcases hs with hs | ⟨q, hs⟩
    · cases hs
    · exact absurd hs AsyncClient.not_mem_sent

/-! ### What the clicks hide -/

/-- The event of the page that a click is. -/
def fired (w : Page) : Event Action Fault → Event Action Fault
  | .act a => .act (click w.page a)
  | e => e

theorem happens_fired (w : Page) (e : Event Action Fault) :
    AsyncClient.Happens page (handled C auth ms) w (fired w e)
      ((clicked.machine (handled C auth ms)).next w e) := by
  have h := AsyncClient.happens page (handled C auth ms) w (fired w e)
  cases e <;> exact h

theorem hides_fired (w : Page) (e : Event Action Fault) : Hides w (fired w e) ↔ Hides w e := by
  cases e with
  | act a =>
    have hclick : ∀ f, click w.page a = .setFilter f ↔ a = .setFilter f := by
      intro f
      cases a <;> simp [click]
    unfold Hides fired AsyncClient.resumed
    simp only [Event.act.injEq, hclick]
  | serve n f => exact Iff.rfl
  | deliver n => exact Iff.rfl
  | lose n => exact Iff.rfl

variable (C auth ms)

/-- In every state that clicks and answers lead the Transactions page to, with the server on
any database: the header box is right if and only if no row is displayed, no selected id is
hidden, or a row is left unticked and the hidden ids are not as many as those rows. And in a run
no step of which hides a selected id, the box is right in every state. -/
theorem header_tells (token : Option Bytes) (db : Db) (is : List (Event Action Fault)) :
    let M := clicked.machine (handled C auth ms)
    let w₀ := AsyncClient.boot (mount token) (.idle db)
    let s := (M.after w₀ is).page
    (Tells s ↔ s.displayed = [] ∨ AllShown s ∨
      unticked s ≠ [] ∧ (hidden s).length ≠ (unticked s).length) ∧
    (M.Along (fun w e => ¬ Hides w e) w₀ is →
      M.Along (fun w _ => Tells w.page) w₀ is ∧ Tells s) := by
  intro M w₀ s
  have hdistinct : M.Inductive Distinct := fun w e hw =>
    distinct_next (AsyncClient.happens clicked (handled C auth ms) w e) hw
  have htells : ∀ xs, Tells (M.after w₀ xs).page ↔ _ := fun xs =>
    have hxs := hdistinct.after (distinct_boot token db) xs
    tells_iff hxs.page.selected hxs.page.displayed
  have hboot : AllShown w₀.page := allShown_mount token
  have hshown : ∀ xs, M.Along (fun w e => ¬ Hides w e) w₀ xs → AllShown (M.after w₀ xs).page := by
    intro xs hxs
    refine Machine.Along.after (P := fun w => AllShown w.page) ?_ xs w₀ hboot hxs
    intro w e he hw
    exact (hides_next (happens_fired w e) hw).mpr fun h => he ((hides_fired w e).mp h)
  refine ⟨htells is, fun his => ⟨?_, (htells is).mpr (Or.inr (Or.inl (hshown is his)))⟩⟩
  refine (M.along_iff _ _ _).mpr fun xs e ys hsplit => ?_
  rw [hsplit, M.along_append] at his
  exact (htells xs).mpr (Or.inr (Or.inl (hshown xs his.1)))

end Runs

/-! ## A tick behind a filter -/

/-- User 1 has an expense and an income. -/
def mixedDb : Db where
  __ := Db.migrated
  Expenses := ⟨[(1, ⟨1, some 1, 1250, some (ascii "lunch"), ascii "2024-05-01", none⟩),
    (2, ⟨1, some 2, 300, some (ascii "refund"), ascii "2024-05-02", some (ascii "income")⟩)], 3,
    by decide, by decide⟩

/-- The list arrives, the expense is ticked, and 'Income' is chosen. -/
def mixedRun : Page :=
  (clicked.machine (handled Crypto.zero (authenticate Crypto.zero) MySql.plain)).after
    (AsyncClient.boot (mount (some annToken)) (.idle mixedDb))
    [.serve 0 .none, .deliver 0, .act (.check 1 true), .act (.setFilter .income)]

/-- The income is the only row and not ticked, and the header box is ticked. -/
theorem header_income :
    mixedRun.page.displayed = [2] ∧ mixedRun.page.ticked = [] ∧
      headerChecked mixedRun.page = true ∧ ¬ Tells mixedRun.page := by
  have hrun : mixedRun.page.displayed = [2] ∧ mixedRun.page.ticked = [] ∧
      headerChecked mixedRun.page = true := by decide +kernel
  obtain ⟨hdisp, hticked, hheader⟩ := hrun
  refine ⟨hdisp, hticked, hheader, fun h => ?_⟩
  have hall := (h.mp hheader).2 2 (by rw [hdisp]; exact List.mem_cons_self)
  rw [hticked] at hall
  cases hall

end ExpenseTracker.L5.Header
