import ExpenseTracker.L5Pages.Transactions

/-!
# Batches of deletions

A batch deletes the selected ids, and the page shows the ticks of the selected ids that
are the id of a row on the screen. The two agree as long as no selected id is hidden.

* `confirmed_ids`: what the confirmation of a batch sends.
* `Hides`, `hides_next`: the steps that hide a selected id.
* `batch_exact`: a run whose confirmations all delete what is shown ticked.
-/
namespace ExpenseTracker.L5.Batch

open ExpenseTracker.Core ExpenseTracker.L1.Password
open ExpenseTracker.L2.Schema ExpenseTracker.L2.Statement ExpenseTracker.L2.Server
open ExpenseTracker.L3.Json ExpenseTracker.L3.Routes
open ExpenseTracker.L4.Tokens ExpenseTracker.L5.Http ExpenseTracker.L5.Transactions

variable {D F : Type}

/-- 'Delete' is pressed in the dialog of a batch. -/
def ConfirmsBatch (s : State) (e : Event Action F) : Prop :=
  e = .act .executeDelete ∧ shows s .executeDelete = true ∧ truthy s.pendingDeleteId = none

/-- The ids that requests delete. -/
def deletedIds (sent : List Fetch) : List Int32 :=
  sent.filterMap fun x =>
    match x.route with
    | .deleteExpense id => some id
    | _ => none

/-- Every selected id is the id of a row on the screen. -/
def AllShown (s : State) : Prop := ∀ id ∈ s.selectedIds, id ∈ s.displayed

/-! ## The confirmation -/

theorem deleted_sent (s : State) : deletedIds ((deleted s).2.map Prod.snd) = [] := by
  unfold deleted fetchExpenses
  cases s.token <;> rfl

/-- A batch sends one deletion for every selected id. -/
theorem confirmed_ids {s : State} (hs : shows s .executeDelete = true)
    (hp : truthy s.pendingDeleteId = none) :
    deletedIds ((act s .executeDelete).2.map Prod.snd) = s.selectedIds := by
  unfold act
  rw [if_pos hs]
  show deletedIds ((executeDelete s).2.map Prod.snd) = _
  unfold executeDelete
  simp only [hp]
  split
  · rename_i hnil
    rw [deleted_sent, hnil]
  · unfold deletedIds
    simp [List.filterMap_map, Function.comp_def]

/-- The ticks are the selection, when none of it is hidden. -/
theorem ticked_iff (s : State) : (∀ id, id ∈ s.selectedIds ↔ id ∈ s.ticked) ↔ AllShown s := by
  unfold State.ticked AllShown
  simp only [List.mem_filter, List.contains_iff_mem]
  constructor
  · intro h id hid
    exact ((h id).mp hid).1
  · intro h id
    exact ⟨fun hid => ⟨h id hid, hid⟩, And.right⟩

/-! ## What hides a selected id -/

/-- The steps that hide a selected id: a list without its row, the end of a single
deletion that selects an id without a row again, and a filter its row does not pass. -/
def Hides (w : World State Cont Fetch D Response) (e : Event Action F) : Prop :=
  w.page.left = false ∧
    match AsyncClient.resumed w e with
    | some (.expenses, some res) =>
      ok res = true ∧ (∃ v, res.body = .json v) ∧ ∃ id ∈ w.page.selectedIds,
        id ∉ State.displayed { w.page with expenses := (expensesOf res.body).reverse }
    | some (.single k captured, some _) => ∃ id ∈ captured, id ≠ k ∧ id ∉ w.page.displayed
    | some _ => False
    | none => ∃ f, e = .act (.setFilter f) ∧ ∃ id ∈ w.page.selectedIds,
        id ∉ State.displayed { w.page with filter := f }

/-- What a deletion ends with changes neither the rows nor the selection. -/
theorem deleted_rows (s : State) :
    (deleted s).1.selectedIds = s.selectedIds ∧ (deleted s).1.displayed = s.displayed := by
  unfold deleted fetchExpenses State.checkAuth State.showToast State.set State.displayed
    State.filteredExpenses
  grind

theorem allShown_deleted {s : State} : AllShown (deleted s).1 ↔ AllShown s := by
  obtain ⟨hsel, hdisp⟩ := deleted_rows s
  unfold AllShown
  rw [hsel, hdisp]

theorem allShown_checkAuth {s : State} : AllShown s.checkAuth ↔ AllShown s := by
  unfold State.checkAuth
  cases s.token <;> exact Iff.rfl

/-- An empty selection hides nothing. -/
theorem allShown_clear {s : State} (hs : AllShown s) :
    AllShown (s.set fun s => { s with selectedIds := [] }) := by
  unfold State.set
  split
  · exact hs
  · exact fun id hid => absurd hid List.not_mem_nil

/-- Nothing is selected on the first render. -/
theorem allShown_mount (token : Option Bytes) : AllShown (mount token).1 := by
  cases token <;> exact fun id hid => absurd hid List.not_mem_nil

/-- Of the actions only a filter can hide a selected id. -/
theorem act_shown {s : State} (hs : AllShown s) (a : Action) (ha : ∀ f, a ≠ .setFilter f) :
    AllShown (act s a).1 := by
  unfold act
  split
  · rename_i hshows
    cases a with
    | setFilter f => exact absurd rfl (ha f)
    | headerCheck checked =>
      cases checked with
      | true => exact fun id hid => hid
      | false => exact fun id hid => absurd hid List.not_mem_nil
    | check id checked =>
      cases checked with
      | true =>
        intro id' hid'
        rcases List.mem_append.mp hid' with hid' | hid'
        · exact hs id' hid'
        · rw [List.mem_singleton.mp hid']
          unfold shows at hshows
          simp only [Bool.and_eq_true, List.contains_iff_mem] at hshows
          exact hshows.2
      | false => exact fun id' hid' => hs id' (List.mem_of_mem_filter hid')
    | executeDelete =>
      have hauth := allShown_checkAuth.mpr hs
      show AllShown (executeDelete s).1
      unfold executeDelete
      dsimp only
      split
      · exact hauth
      split
      · exact allShown_deleted.mpr (allShown_clear hauth)
      · exact hauth
    | _ => exact hs
  · exact hs

/-- An answer of a batch hides nothing. -/
theorem gotBatch_shown {s : State} (hs : AllShown s) (b : ℕ) (res : Option Response) :
    AllShown (gotBatch s b res).1 := by
  unfold gotBatch
  split
  · exact hs
  cases res with
  | none => exact hs
  | some res =>
    dsimp only
    split
    · exact allShown_deleted.mpr (allShown_clear hs)
    · exact hs

theorem allShown_iff (s : State) : AllShown s ↔ ¬ ∃ id ∈ s.selectedIds, id ∉ s.displayed := by
  unfold AllShown
  simp only [not_exists, not_and, not_not]

theorem setFilter_shown {s : State} (hs : AllShown s) (f : Filter) :
    AllShown (act s (.setFilter f)).1 ↔
      ¬ (s.left = false ∧ ∃ id ∈ s.selectedIds, id ∉ State.displayed { s with filter := f }) := by
  unfold act shows
  cases hl : s.left with
  | true => simp [hs]
  | false =>
    simp only [Bool.not_false, if_true, true_and]
    exact allShown_iff _

theorem gotExpenses_shown {s : State} (hs : AllShown s) (res : Response) :
    AllShown (gotExpenses s (some res)).1 ↔
      ¬ (s.left = false ∧ ok res = true ∧ (∃ v, res.body = .json v) ∧ ∃ id ∈ s.selectedIds,
        id ∉ State.displayed { s with expenses := (expensesOf res.body).reverse }) := by
  unfold gotExpenses
  dsimp only
  cases hok : ok res with
  | false =>
    simp only [Bool.false_eq_true, if_false, false_and, and_false, not_false_eq_true, iff_true]
    split <;> exact hs
  | true =>
    rw [if_neg (ok_ne_401 hok), if_pos rfl]
    cases hbody : res.body with
    | text t => simp [hs]
    | json v =>
      unfold State.set
      cases hl : s.left with
      | true => simp [hs]
      | false =>
        have hjson : ∃ v', Body.json v = .json v' := ⟨v, rfl⟩
        simp only [Bool.false_eq_true, if_false, true_and, hjson]
        exact allShown_iff _

theorem gotSingle_shown {s : State} (hs : AllShown s) (k : Int32) (captured : List Int32)
    (res : Response) : AllShown (gotSingle s k captured (some res)).1 ↔
      ¬ (s.left = false ∧ ∃ id ∈ captured, id ≠ k ∧ id ∉ s.displayed) := by
  unfold gotSingle
  rw [allShown_deleted]
  unfold State.set
  cases hl : s.left with
  | true => simp [hs]
  | false =>
    unfold AllShown
    simp only [Bool.false_eq_true, if_false, true_and, not_exists, not_and, not_not]
    constructor
    · intro h id hid hne
      exact h id (List.mem_filter.mpr ⟨hid, by simpa using hne⟩)
    · intro h id hid
      obtain ⟨hid, hne⟩ := List.mem_filter.mp hid
      exact h id hid (by simpa using hne)

/-- **One event.** It hides a selected id exactly when `Hides` says so. -/
theorem hides_next {handle : D → Fetch → F → Response × D}
    {w w' : World State Cont Fetch D Response} {e : Event Action F}
    (h : AsyncClient.Happens page handle w e w') (hw : AllShown w.page) :
    AllShown w'.page ↔ ¬ Hides w e := by
  unfold Hides
  rcases h.page with ⟨a, rfl, hpage⟩ | ⟨k, res, hk, hpage⟩ | ⟨hk, hact, hpage⟩
  · have hres : AsyncClient.resumed w (.act a : Event Action F) = none := rfl
    rw [hpage, hres]
    show AllShown (act w.page a).1 ↔ _
    by_cases ha : ∃ f, a = .setFilter f
    · obtain ⟨f, rfl⟩ := ha
      simpa using setFilter_shown hw f
    · have hne : ∀ f, a ≠ .setFilter f := fun f hf => ha ⟨f, hf⟩
      simpa [hne] using act_shown hw a hne
  · rw [hpage, hk]
    cases k with
    | expenses =>
      cases res with
      | none =>
        show AllShown w.page ↔ _
        simpa using hw
      | some res => exact gotExpenses_shown hw res
    | single k captured =>
      cases res with
      | none =>
        show AllShown w.page ↔ _
        simpa using hw
      | some res => exact gotSingle_shown hw k captured res
    | batch b =>
      show AllShown (gotBatch w.page b res).1 ↔ _
      simpa using gotBatch_shown hw b res
  · rw [hpage, hk]
    simpa [hact] using hw

/-! ## Runs -/

section Runs

variable (handle : D → Fetch → F → Response × D)

/-- A confirmed batch deletes the ids of the rows on the screen with a ticked box. -/
def Exact (w : World State Cont Fetch D Response) (e : Event Action F) : Prop :=
  ConfirmsBatch w.page e → ∀ id,
    id ∈ deletedIds ((page.machine handle).out w e) ↔ id ∈ w.page.ticked

theorem exact_iff (w : World State Cont Fetch D Response) (e : Event Action F) :
    Exact handle w e ↔ (ConfirmsBatch w.page e → AllShown w.page) := by
  unfold Exact
  refine imp_congr_right fun ⟨he, hs, hp⟩ => ?_
  have hout : deletedIds ((page.machine handle).out w e) = w.page.selectedIds := by
    rw [he, AsyncClient.out_act]
    exact confirmed_ids hs hp
  rw [hout]
  exact ticked_iff w.page

/-- Nothing selected is hidden at any point of a run exactly when no step hides. -/
theorem along_shown {w : World State Cont Fetch D Response} (hw : AllShown w.page)
    (is : List (Event Action F)) :
    (page.machine handle).Along (fun w e => ¬ Hides w e) w is ↔
      (page.machine handle).Along (fun w _ => AllShown w.page) w is ∧
        AllShown ((page.machine handle).after w is).page := by
  induction is generalizing w with
  | nil => simp [Machine.Along, hw]
  | cons e is ih =>
    have hstep := hides_next (AsyncClient.happens page handle w e) hw
    unfold Machine.Along
    rw [← hstep, Machine.after_cons]
    constructor
    · rintro ⟨hnext, hrest⟩
      obtain ⟨halong, hlast⟩ := (ih hnext).mp hrest
      exact ⟨⟨hw, halong⟩, hlast⟩
    · rintro ⟨⟨_, halong⟩, hlast⟩
      have hnext : AllShown ((page.machine handle).next w e).page := by
        cases is with
        | nil => exact hlast
        | cons e' is => exact halong.1
      exact ⟨hnext, (ih hnext).mpr ⟨halong, hlast⟩⟩

/-- In every run of the Transactions page, against any server: every confirmed batch sends
deletions for exactly the rows on the screen with a ticked box if and only if no selected id is
hidden whenever a batch is confirmed. Nothing selected is hidden at any point of the run if and
only if no step hides a selected id, and then every batch is exact. -/
theorem batch_exact (token : Option Bytes) (d : D) (is : List (Event Action F)) :
    let M := page.machine handle
    let w₀ := AsyncClient.boot (mount token) d
    (M.Along (Exact handle) w₀ is ↔
      M.Along (fun w e => ConfirmsBatch w.page e → AllShown w.page) w₀ is) ∧
    (M.Along (fun w e => ¬ Hides w e) w₀ is ↔
      M.Along (fun w _ => AllShown w.page) w₀ is ∧ AllShown (M.after w₀ is).page) ∧
    (M.Along (fun w e => ¬ Hides w e) w₀ is → M.Along (Exact handle) w₀ is) := by
  intro M w₀
  have hboot : AllShown w₀.page := allShown_mount token
  have hexact : M.Along (Exact handle) w₀ is ↔
      M.Along (fun w e => ConfirmsBatch w.page e → AllShown w.page) w₀ is := by
    have htrivial : M.Inductive fun _ => True := fun _ _ _ => trivial
    exact htrivial.along_congr (fun w e _ => exact_iff handle w e) trivial is
  have hshown := along_shown handle hboot is
  refine ⟨hexact, hshown, fun h => hexact.mpr ?_⟩
  apply Machine.Along.imp _ (hshown.mp h).1
  intro w e hw _
  exact hw

end Runs

/-! ## A tick behind a filter -/

/-- The list arrives, entry 1 is ticked, 'Income' is chosen, and 'Delete Selected'. -/
def behindFilter : List (Event Action Fault) :=
  [.serve 0 .none, .deliver 0, .act (.check 1 true), .act (.setFilter .income),
    .act .handleBatchDelete]

/-- The Transactions page of user 1, who has two expenses, and the server. -/
def twoRun (is : List (Event Action Fault)) :
    World State Cont Fetch (Conn Db ResultSet) Response :=
  (page.machine (handled Crypto.zero (authenticate Crypto.zero) MySql.plain)).after
    (AsyncClient.boot (mount (some annToken)) (.idle twoDb)) is

/-- No row is on the screen, and the confirmed batch deletes entry 1. -/
theorem batch_hidden :
    shows (twoRun behindFilter).page .executeDelete = true ∧
      truthy (twoRun behindFilter).page.pendingDeleteId = none ∧
      (twoRun behindFilter).page.ticked = [] ∧
      deletedIds ((page.machine (handled Crypto.zero (authenticate Crypto.zero) MySql.plain)).out
        (twoRun behindFilter) (.act .executeDelete)) = [1] ∧
      ¬ Exact (handled Crypto.zero (authenticate Crypto.zero) MySql.plain) (twoRun behindFilter)
        (.act .executeDelete) := by
  have hrun : shows (twoRun behindFilter).page .executeDelete = true ∧
      truthy (twoRun behindFilter).page.pendingDeleteId = none ∧
      (twoRun behindFilter).page.ticked = [] ∧
      deletedIds ((page.machine (handled Crypto.zero (authenticate Crypto.zero) MySql.plain)).out
        (twoRun behindFilter) (.act .executeDelete)) = [1] := by decide +kernel
  obtain ⟨hs, hp, hticked, hsent⟩ := hrun
  refine ⟨hs, hp, hticked, hsent, fun h => ?_⟩
  have h1 := (h ⟨rfl, hs, hp⟩ 1).mp (by rw [hsent]; decide)
  rw [hticked] at h1
  cases h1

end ExpenseTracker.L5.Batch
