import ExpenseTracker.L3Server.Records
import ExpenseTracker.L5Pages.Dashboard

/-!
# The Dashboard and the ledger

Every add and every deletion is followed by a GET of its own, and the page shows what
the GET delivered last was answered. This module follows the page and the server
through every order of handling and delivering.

* `Synced`: what holds between the page, the server and the requests in flight at every
  point of a run without failures; `synced_next`, `synced_after`.
* `dashboard_converges`: when nothing is in flight, the page shows the list the server
  had when it handled the GET delivered last.
-/
namespace ExpenseTracker.L5.Convergence

open ExpenseTracker.Core ExpenseTracker.L1.Password
open ExpenseTracker.L2.Schema ExpenseTracker.L2.Statement ExpenseTracker.L2.Server
open ExpenseTracker.L3.Json ExpenseTracker.L3.Records ExpenseTracker.L3.Routes
open ExpenseTracker.L3.Serve ExpenseTracker.L4.Tokens
open ExpenseTracker.L5.Http ExpenseTracker.L5.Dashboard

abbrev Dash := World State Cont Fetch (Conn Db ResultSet) Response

/-! ## What the callbacks do -/

section Callbacks

variable (token : Bytes) (add : Double → Double → Double) (stringify : Form → RValue)

/-- The request a continuation waits for. -/
def Asks (token : Bytes) : Cont → Fetch → Prop
  | .expenses, q => q = ⟨.getExpenses, bearer token none⟩
  | .savings, q => q.route = .getSavings
  | .added, q => q.route = .postExpenses
  | .deleted, q => ∃ id, q.route = .deleteExpense id

theorem asks_write {token : Bytes} {k : Cont} {q : Fetch} (h : Asks token k q)
    (hq : writes q.route = true) : k = .added ∨ k = .deleted := by
  cases k with
  | expenses =>
    rw [h] at hq
    cases hq
  | savings =>
    rw [h] at hq
    cases hq
  | added => exact Or.inl rfl
  | deleted => exact Or.inr rfl

theorem act_list (s : State) (a : Action) :
    (act token stringify s a).1.expenses = s.expenses ∧
      (act token stringify s a).1.left = s.left ∧
      ∀ p ∈ (act token stringify s a).2, Asks token p.1 p.2 := by
  unfold act
  split
  · cases a with
    | executeDelete =>
      unfold handler
      cases truthy s.pendingDeleteId <;> simp [Asks]
    | _ => simp [handler, Asks]
  · simp

/-- Behind a successful answer. Only the list of a GET changes the rows, and an add or a
deletion asks for a new one. -/
theorem resume_list (s : State) (k : Cont) {res : Response} (hok : ok res = true) :
    (resume token add s k (some res)).1.left = s.left ∧
      (∀ p ∈ (resume token add s k (some res)).2, Asks token p.1 p.2) ∧
      (k ≠ .expenses → (resume token add s k (some res)).1.expenses = s.expenses) ∧
      (k = .added ∨ k = .deleted →
        (resume token add s k (some res)).2 = fetchExpenses token) := by
  have hcode := ok_ne_401 hok
  cases k with
  | expenses =>
    unfold resume gotExpenses State.showToast State.set
    grind [Asks]
  | savings =>
    unfold resume gotSavings State.showToast State.set
    grind
  | added =>
    unfold resume gotAdded State.showToast State.set
    grind [fetchExpenses, Asks]
  | deleted =>
    unfold resume gotDeleted State.showToast State.set
    grind [fetchExpenses, Asks]

theorem resume_expenses {s : State} (hleft : s.left = false) {res : Response} (hok : ok res = true)
    {v : WValue} (hbody : res.body = .json v) :
    (resume token add s .expenses (some res)).1.expenses = processed (expensesOf res.body) := by
  unfold resume gotExpenses State.set
  simp only [if_neg (ok_ne_401 hok), if_pos hok, hbody, hleft]
  rfl

end Callbacks

/-! ## What the server does -/

section Server

variable (C : Crypto) (ms : MySql) (token : Bytes)

/-- The records GET /api/expenses lists for the token. -/
def ledger (c : Conn Db ResultSet) : List Expense :=
  (expenseReader.rows c.db.Expenses (authenticate C (bearer token none))).map
    fun r => expenseOf (r.1, expenseReader.cut r.2)

theorem listed_ledger (c : Conn Db ResultSet) :
    listed c.db (authenticate C (bearer token none)) .Expenses =
      .ok ((ledger C token c).map expenseJson) := by
  rw [listed_Expenses, expenseReader.listed_ok, ledger, List.map_map]
  · rfl
  · exact List.any_eq_false.mpr fun r _ => Bool.false_ne_true

/-- A GET of the list that succeeds, without failing calls, answers the ledger. -/
theorem handled_expenses {c : Conn Db ResultSet} (hc : Idle c)
    (hok : ok (handled C (authenticate C) ms c ⟨.getExpenses, bearer token none⟩ .none).1 = true) :
    handled C (authenticate C) ms c ⟨.getExpenses, bearer token none⟩ .none =
      (⟨200, .json (.ofList ((ledger C token c).map expenseJson))⟩, c) := by
  have ha : authenticate C (bearer token none) ≠ -1 := by
    intro ha
    have hno : serve C (authenticate C) ms ⟨.getExpenses, bearer token none, .none⟩ c =
        (respond 401 "Unauthorized", c) := serve_unauthorized rfl ha c
    have hcode := ok_ne_401 hok
    apply hcode
    show (serve C (authenticate C) ms ⟨.getExpenses, bearer token none, .none⟩ c).1.code = 401
    rw [hno]
    rfl
  show serve C (authenticate C) ms ⟨.getExpenses, bearer token none, .none⟩ c = _
  have hget : serve C (authenticate C) ms ⟨.getExpenses, bearer token none, .none⟩ (.idle c.db) =
      _ := serve_get (c := .Expenses) rfl ha
  rw [hc.eq, hget]
  simp only [Fault.none, Bool.or_self, Bool.false_eq_true, if_false, listed_ledger, listing]
  rfl

/-- The requests that only read. -/
def Reads (q : Fetch) : Prop := writes q.route = false

theorem handled_reads {c : Conn Db ResultSet} (hc : Idle c) {q : Fetch} (hq : Reads q) (f : Fault) :
    (handled C (authenticate C) ms c q f).2 = c := by
  have hstore : storing C (authenticate C) (q.call f) = none := by
    obtain ⟨route, req⟩ := q
    unfold Reads writes at hq
    unfold storing Fetch.call
    cases route with
    | login now => rfl
    | getExpenses => rfl
    | getBudgets => rfl
    | getSavings => rfl
    | getGoals => rfl
    | _ => cases hq
  have h : (serve C (authenticate C) ms (q.call f) (.idle c.db)).2 = .idle c.db :=
    serve_not_storing hstore
  rwa [← hc.eq] at h

end Server

/-! ## The page and the server in step -/

/-- The answers to GET /api/expenses that were delivered, the latest first. -/
def lists (w : Dash) : List (Served (Conn Db ResultSet) Response) :=
  w.delivered.filterMap fun p => if p.1 = .expenses then some p.2 else none

theorem mem_lists {w : Dash} {s : Served (Conn Db ResultSet) Response} :
    s ∈ lists w ↔ (.expenses, s) ∈ w.delivered := by
  unfold lists
  rw [List.mem_filterMap]
  constructor
  · intro ⟨⟨k, s'⟩, hp, hs⟩
    by_cases hk : k = .expenses
    · simp only [if_pos hk, Option.some.injEq] at hs
      rwa [← hs, ← hk]
    · simp [hk] at hs
  · intro hp
    exact ⟨_, hp, if_pos rfl⟩

/-- A GET of the list handled at turn `m` or later was delivered, or is still to be. -/
def Refreshing (w : Dash) (m : ℕ) : Prop :=
  (∃ s ∈ lists w, m ≤ s.turn) ∨
    ∃ x ∈ w.flight, x.cont = .expenses ∧ ∀ s, x.served = some s → m ≤ s.turn

section Sync

variable (C : Crypto) (ms : MySql) (token : Bytes) (add : Double → Double → Double)
  (stringify : Form → RValue)

/-- The page and the server. -/
def dashboard : Machine Dash (Event Action Fault) (List Fetch) :=
  (page token add stringify).machine (handled C (authenticate C) ms)

/-- The request an event hands to the server. -/
def taken (w : Dash) (n : ℕ) : Option Fetch :=
  match w.flight[n]? with
  | some ⟨_, q, none⟩ => some q
  | _ => none

/-- No call fails, every request succeeds, and no answer gets lost. -/
def Smooth (w : Dash) : Event Action Fault → Prop
  | .serve n f => f = .none ∧ ∀ q ∈ taken w n,
      ok (handled C (authenticate C) ms w.server q f).1 = true
  | .lose _ => False
  | _ => True

instance (w : Dash) (e : Event Action Fault) : Decidable (Smooth C ms w e) :=
  match e with
  | .act _ => .isTrue trivial
  | .serve n f => inferInstanceAs (Decidable (f = .none ∧ ∀ q ∈ taken w n, _))
  | .deliver _ => .isTrue trivial
  | .lose _ => .isFalse id

/-- What every run without failures keeps. -/
structure Synced (w : Dash) : Prop where
  idle : Idle w.server
  here : w.page.left = false
  asks : ∀ x ∈ w.flight, Asks token x.cont x.request
  good : ∀ k s, AsyncClient.Answered w k s → ok s.answer = true
  listed : ∀ s, AsyncClient.Answered w .expenses s →
    s.answer = ⟨200, .json (.ofList ((ledger C token s.state).map expenseJson))⟩
  shown : w.page.expenses =
    processed (((lists w).head?.map fun s => ledger C token s.state).getD [])
  current : AsyncClient.Current Reads w
  covered : ∀ m q, w.handled[m]? = some q → writes q.route = true → Refreshing w (m + 1) ∨
    ∃ x ∈ w.flight, (x.cont = .added ∨ x.cont = .deleted) ∧
      ∃ s, x.served = some s ∧ s.turn = m
  begun : Refreshing w 0

variable {C ms token add stringify} {w w' : Dash} {e : Event Action Fault}

theorem smooth_ok {n : ℕ} {f : Fault} (hs : Smooth C ms w (.serve n f)) {k : Cont} {q : Fetch}
    (hn : w.flight[n]? = some ⟨k, q, none⟩) :
    ok (handled C (authenticate C) ms w.server q f).1 = true := by
  apply hs.2 q
  unfold taken
  rw [hn]
  rfl

section Step

variable (h : AsyncClient.Happens (page token add stringify) (handled C (authenticate C) ms) w e w')

include h

theorem refreshing_next {m : ℕ} (hs : Smooth C ms w e) (hm : m ≤ w.handled.length)
    (hr : Refreshing w m) : Refreshing w' m := by
  rcases hr with ⟨s, hlist, hle⟩ | ⟨x, hx, hk, hle⟩
  · exact Or.inl ⟨s, mem_lists.mpr (h.delivered (mem_lists.mp hlist)), hle⟩
  rcases h.fate hx with hx' | ⟨_, s, hturn, hx'⟩ | ⟨s, hserved, hd, _⟩ | ⟨n, rfl⟩
  · exact Or.inr ⟨x, hx', hk, hle⟩
  · refine Or.inr ⟨_, hx', hk, fun s' hs' => ?_⟩
    cases hs'
    omega
  · exact Or.inl ⟨s, mem_lists.mpr (hk ▸ hd), hle s hserved⟩
  · exact absurd hs id

variable (hs : Smooth C ms w e) (hw : Synced C token w)

include hs hw

theorem here_next : w'.page.left = false := by
  cases h with
  | act a => exact (act_list token stringify w.page a).2.1.trans hw.here
  | deliver n k q s hn =>
    have hok := hw.good k s (Or.inr ⟨q, List.mem_of_getElem? hn⟩)
    exact (resume_list token add w.page k hok).1.trans hw.here
  | lose n x hn => exact absurd hs id
  | _ => exact hw.here

theorem asks_next : ∀ x ∈ w'.flight, Asks token x.cont x.request := by
  refine h.requests hw.asks ?_ ?_
  · intro a _
    exact (act_list token stringify w.page a).2.2
  · intro k r hres
    cases r with
    | none =>
      obtain ⟨n, rfl⟩ := AsyncClient.resumed_lost hres
      exact absurd hs id
    | some r =>
      obtain ⟨s, hks, rfl⟩ := AsyncClient.resumed_answered hres
      exact (resume_list token add w.page k (hw.good k s hks)).2.1

theorem good_next : ∀ k s, AsyncClient.Answered w' k s → ok s.answer = true := by
  intro k s hks
  rcases h.answered hks with ⟨hold, _⟩ | ⟨n, f, q, rfl, _, _, hold | ⟨hn, rfl⟩⟩
  · exact hw.good k s hold
  · exact hw.good k s hold
  · exact smooth_ok hs hn

theorem listed_next : ∀ s, AsyncClient.Answered w' .expenses s →
    s.answer = ⟨200, .json (.ofList ((ledger C token s.state).map expenseJson))⟩ := by
  intro s hks
  rcases h.answered hks with ⟨hold, _⟩ | ⟨n, f, q, rfl, _, _, hold | ⟨hn, rfl⟩⟩
  · exact hw.listed s hold
  · exact hw.listed s hold
  · have hq : q = ⟨.getExpenses, bearer token none⟩ :=
      hw.asks ⟨.expenses, q, none⟩ (List.mem_of_getElem? hn)
    have hok := smooth_ok hs hn
    rw [hs.1, hq] at hok ⊢
    have hread := handled_expenses C ms token hw.idle hok
    simp only [hread]

theorem shown_next : w'.page.expenses =
    processed (((lists w').head?.map fun s => ledger C token s.state).getD []) := by
  cases h with
  | act a => exact (act_list token stringify w.page a).1.trans hw.shown
  | serve n f k q hn => exact hw.shown
  | deliver n k q s hn =>
    have hks : AsyncClient.Answered w k s := Or.inr ⟨q, List.mem_of_getElem? hn⟩
    have hok := hw.good k s hks
    by_cases hk : k = .expenses
    · subst hk
      have hbody := congrArg Response.body (hw.listed s hks)
      show (resume token add w.page .expenses (some s.answer)).1.expenses = _
      rw [resume_expenses token add hw.here hok hbody, hbody, expensesOf_expenseJson]
      rfl
    · have hlists : lists { w with delivered := (k, s) :: w.delivered } = lists w :=
        List.filterMap_cons_none (if_neg hk)
      show (resume token add w.page k (some s.answer)).1.expenses =
        processed (((lists { w with delivered := (k, s) :: w.delivered }).head?.map
          fun s => ledger C token s.state).getD [])
      rw [hlists]
      exact ((resume_list token add w.page k hok).2.2.1 hk).trans hw.shown
  | lose n x hn => exact absurd hs id
  | nothing e _ _ => exact hw.shown

theorem covered_next :
    ∀ m q, w'.handled[m]? = some q → writes q.route = true → Refreshing w' (m + 1) ∨
      ∃ x ∈ w'.flight, (x.cont = .added ∨ x.cont = .deleted) ∧
        ∃ s, x.served = some s ∧ s.turn = m := by
  -- a write handled before: its GET goes on, or the write itself does
  have old : ∀ m q, w.handled[m]? = some q → writes q.route = true → Refreshing w' (m + 1) ∨
      ∃ x ∈ w'.flight, (x.cont = .added ∨ x.cont = .deleted) ∧
        ∃ s, x.served = some s ∧ s.turn = m := by
    intro m q hm hq
    have hlt : m < w.handled.length := (List.getElem?_eq_some_iff.mp hm).1
    rcases hw.covered m q hm hq with hr | ⟨x, hx, hk, s, hserved, hturn⟩
    · exact Or.inl (refreshing_next h hs hlt hr)
    rcases h.fate hx with hx' | ⟨hnone, _⟩ | ⟨s', hserved', _, hsent⟩ | ⟨n, rfl⟩
    · exact Or.inr ⟨x, hx', hk, s, hserved, hturn⟩
    · rw [hserved] at hnone
      cases hnone
    · -- the answer of a write sends the GET
      have hok := hw.good x.cont s' (Or.inr ⟨x.request, by rw [← hserved']; exact hx⟩)
      have hfetch := (resume_list token add w.page x.cont hok).2.2.2 hk
      refine Or.inl (Or.inr ⟨⟨.expenses, ⟨.getExpenses, bearer token none⟩, none⟩, ?_, rfl, ?_⟩)
      · apply hsent
        show _ ∈ AsyncClient.sent (resume token add w.page x.cont (some s'.answer)).2
        rw [hfetch]
        exact List.mem_cons_self
      · intro s hs
        cases hs
    · exact absurd hs id
  cases h with
  | serve n f k q hn =>
    intro m q' hm hq'
    by_cases hlt : m < w.handled.length
    · rw [List.getElem?_append_left hlt] at hm
      exact old m q' hm hq'
    · -- the write handled now
      rw [List.getElem?_append_right (by omega), List.getElem?_singleton] at hm
      split at hm
      · cases hm
        have hasks : Asks token k q := hw.asks ⟨k, q, none⟩ (List.mem_of_getElem? hn)
        refine Or.inr ⟨_, List.mem_set (List.getElem?_eq_some_iff.mp hn).1 _,
          asks_write hasks hq', _, rfl, ?_⟩
        show w.handled.length = m
        omega
      · cases hm
  | _ => exact old

theorem synced_next : Synced C token w' where
  idle := idle_next h hw.idle
  here := here_next h hs hw
  asks := asks_next h hs hw
  good := good_next h hs hw
  listed := listed_next h hs hw
  shown := shown_next h hs hw
  current := h.current (fun _ f hq => handled_reads C ms hw.idle hq f) hw.current
  covered := covered_next h hs hw
  begun := refreshing_next h hs (Nat.zero_le _) hw.begun

end Step

/-- **Every run without failures keeps the page and the server in step.** -/
theorem synced_after {w : Dash} (hw : Synced C token w) {is : List (Event Action Fault)}
    (hs : (dashboard C ms token add stringify).Along (Smooth C ms) w is) :
    Synced C token ((dashboard C ms token add stringify).after w is) := by
  apply Machine.Along.after _ is w hw hs
  intro w e hs hw
  exact synced_next (AsyncClient.happens _ _ w e) hs hw

theorem synced_boot (db : Db) :
    Synced C token (AsyncClient.boot (mount (some token)) (.idle db)) where
  idle := rfl
  here := rfl
  asks := by
    intro x hx
    rw [List.mem_singleton.mp hx]
    rfl
  good := by
    intro k s hs
    rcases hs with hs | ⟨q, hs⟩
    · cases hs
    · exact absurd hs AsyncClient.not_mem_sent
  listed := by
    intro s hs
    rcases hs with hs | ⟨q, hs⟩
    · cases hs
    · exact absurd hs AsyncClient.not_mem_sent
  shown := rfl
  current := by
    intro k s hs
    rcases hs with hs | ⟨q, hs⟩
    · cases hs
    · exact absurd hs AsyncClient.not_mem_sent
  covered := by
    intro m q hm
    cases hm
  begun := by
    refine Or.inr ⟨_, List.mem_singleton.mpr rfl, rfl, ?_⟩
    intro s hs
    cases hs

/-- The page shows the server's current list for the user. -/
def Converged (C : Crypto) (token : Bytes) (w : Dash) : Prop :=
  w.page.expenses.Perm (ledger C token w.server)

/-- The answers to GET /api/expenses were delivered in the order in which the server
handled the requests. -/
def InOrder (w : Dash) : Prop := (lists w).Pairwise fun s s' => s'.turn ≤ s.turn

instance (w : Dash) : Decidable (InOrder w) := List.instDecidablePairwise (lists w)

end Sync

/-- In every run of the Dashboard and the server without failures, once no request is in
flight: the page shows the list of the GET delivered last. That is the current list if and
only if the list has the same entries now as when the server handled that GET; so it is when
no add and no deletion was handled after it, and whenever the answers of the GETs came in the
order of handling. -/
theorem dashboard_converges (C : Crypto) (ms : MySql) (token : Bytes)
    (add : Double → Double → Double) (stringify : Form → RValue) (db : Db)
    (is : List (Event Action Fault)) :
    let M := dashboard C ms token add stringify
    let w₀ := AsyncClient.boot (mount (some token)) (.idle db)
    let w := M.after w₀ is
    M.Along (Smooth C ms) w₀ is → w.flight = [] →
      ∃ s, (lists w).head? = some s ∧ w.page.expenses = processed (ledger C token s.state) ∧
        (Converged C token w ↔ (ledger C token s.state).Perm (ledger C token w.server)) ∧
        ((∀ q ∈ AsyncClient.since w s, writes q.route = false) → Converged C token w) ∧
        (InOrder w → Converged C token w) := by
  intro M w₀ w hs hquiet
  have hw : Synced C token w := synced_after (synced_boot db) hs
  have refreshed : ∀ m, Refreshing w m → ∃ s ∈ lists w, m ≤ s.turn := by
    intro m hm
    rcases hm with hm | ⟨x, hx, _⟩
    · exact hm
    · rw [hquiet] at hx
      cases hx
  obtain ⟨s, rest, hlists⟩ : ∃ s rest, lists w = s :: rest := by
    obtain ⟨s, hmem, _⟩ := refreshed 0 hw.begun
    exact List.exists_cons_of_ne_nil (List.ne_nil_of_mem hmem)
  have hshown := hw.shown
  rw [hlists] at hshown
  have hperm : w.page.expenses.Perm (ledger C token s.state) := by
    rw [hshown]
    exact List.perm_insertionSort _ _
  have hsince : (∀ q ∈ AsyncClient.since w s, writes q.route = false) → Converged C token w := by
    intro hreads
    have hs : AsyncClient.Answered w .expenses s :=
      Or.inl (mem_lists.mp (hlists ▸ List.mem_cons_self))
    have hstate := (hw.current _ s hs).2 hreads
    rwa [hstate] at hperm
  refine ⟨s, by rw [hlists]; rfl, hshown, ⟨hperm.symm.trans, hperm.trans⟩, hsince, ?_⟩
  intro horder
  apply hsince
  intro q hq
  -- a write handled after the last GET delivered would have a later GET of its own
  by_contra hwrite
  obtain ⟨i, hi⟩ := List.mem_iff_getElem?.mp hq
  unfold AsyncClient.since at hi
  rw [List.getElem?_drop] at hi
  have hcovered := hw.covered _ q hi (by simpa using hwrite)
  rcases hcovered with hr | ⟨x, hx, _⟩
  · obtain ⟨s', hmem, hle⟩ := refreshed _ hr
    unfold InOrder at horder
    rw [hlists] at horder hmem
    have hlast : s'.turn ≤ s.turn := by
      rcases List.mem_cons.mp hmem with rfl | hmem
      · exact Nat.le_refl _
      · exact List.rel_of_pairwise_cons horder hmem
    omega
  · rw [hquiet] at hx
    cases hx

/-! ## Two deletions -/

/-- The Dashboard of user 1, who has two expenses. -/
def twoRun (is : List (Event Action Fault)) : Dash :=
  (dashboard Crypto.zero MySql.plain annToken (fun x _ => x) fun _ => .null).after
    (AsyncClient.boot (mount (some annToken)) (.idle twoDb)) is

/-- The list and the savings arrive, and entry 1 is deleted. -/
def oneDeleted : List (Event Action Fault) :=
  [.serve 0 .none, .deliver 0, .serve 0 .none, .deliver 0, .act (.confirmDelete 1),
    .act .executeDelete, .serve 0 .none, .deliver 0, .serve 0 .none]

/-- With the new list delivered, the page shows the one left. -/
theorem dashboard_converges_one :
    Converged Crypto.zero annToken
      (twoRun (oneDeleted ++ [.deliver 0, .serve 0 .none, .deliver 0])) := by
  have hrun : (dashboard Crypto.zero MySql.plain annToken (fun x _ => x) fun _ => .null).Along
        (Smooth Crypto.zero MySql.plain) (AsyncClient.boot (mount (some annToken)) (.idle twoDb))
        (oneDeleted ++ [.deliver 0, .serve 0 .none, .deliver 0]) ∧
      (twoRun (oneDeleted ++ [.deliver 0, .serve 0 .none, .deliver 0])).flight.isEmpty = true ∧
      InOrder (twoRun (oneDeleted ++ [.deliver 0, .serve 0 .none, .deliver 0])) := by
    decide +kernel
  obtain ⟨hsmooth, hquiet, horder⟩ := hrun
  obtain ⟨s, _, _, _, _, h⟩ := dashboard_converges Crypto.zero MySql.plain annToken (fun x _ => x)
    (fun _ => .null) twoDb _ hsmooth (List.isEmpty_iff.mp hquiet)
  exact h horder

/-- The list of the first deletion is delivered behind that of the second. -/
def overtaken : List (Event Action Fault) :=
  oneDeleted ++ [.act (.confirmDelete 2), .act .executeDelete, .serve 1 .none, .deliver 1,
    .serve 1 .none, .deliver 1, .deliver 0, .serve 0 .none, .deliver 0, .serve 0 .none, .deliver 0]

/-- Both entries are deleted, nothing is in flight, and the page shows entry 2. -/
theorem dashboard_stale :
    (dashboard Crypto.zero MySql.plain annToken (fun x _ => x) fun _ => .null).Along
        (Smooth Crypto.zero MySql.plain) (AsyncClient.boot (mount (some annToken)) (.idle twoDb))
        overtaken ∧
      (twoRun overtaken).flight = [] ∧
      (twoRun overtaken).page.expenses.map Expense.id = [2] ∧
      ledger Crypto.zero annToken (twoRun overtaken).server = [] ∧
      ¬ Converged Crypto.zero annToken (twoRun overtaken) := by
  have hrun : (dashboard Crypto.zero MySql.plain annToken (fun x _ => x) fun _ => .null).Along
        (Smooth Crypto.zero MySql.plain) (AsyncClient.boot (mount (some annToken)) (.idle twoDb))
        overtaken ∧
      (twoRun overtaken).flight.isEmpty = true ∧
      (twoRun overtaken).page.expenses.map Expense.id = [2] ∧
      (ledger Crypto.zero annToken (twoRun overtaken).server).isEmpty = true := by decide +kernel
  obtain ⟨hsmooth, hquiet, hpage, hledger⟩ := hrun
  rw [List.isEmpty_iff] at hquiet hledger
  refine ⟨hsmooth, hquiet, hpage, hledger, ?_⟩
  intro h
  unfold Converged at h
  rw [hledger] at h
  rw [h.eq_nil] at hpage
  cases hpage

end ExpenseTracker.L5.Convergence
