import ExpenseTracker.L5Pages.Dashboard
import ExpenseTracker.L5Pages.Batch

/-!
# What a deletion reports

A `fetch` fails only when no answer comes, and `executeDelete` of the Transactions page
does not look at the answers. This module follows a press of 'Delete' through the ends of
its requests, in any order and with any outcomes.

* `finish_batch`: a batch ends as one; `finish_eq`: the page when all requests have ended.
* `reported_iff`: the deletions whose report is true.
* `dashboard_reported`: the Dashboard reports no other.
-/
namespace ExpenseTracker.L5.Reported

open ExpenseTracker.Core ExpenseTracker.L1.Password
open ExpenseTracker.L2.Schema ExpenseTracker.L2.Statement ExpenseTracker.L2.Server
open ExpenseTracker.L3.Json ExpenseTracker.L3.Routes
open ExpenseTracker.L4.Tokens ExpenseTracker.L5.Http ExpenseTracker.L5.Transactions

/-- The end of a request: an answer, or a network failure. -/
abbrev Completion := (Cont × Fetch) × Option Response

/-- The id a request deletes. -/
def deletes (x : Fetch) : Option Int32 :=
  match x.route with
  | .deleteExpense id => some id
  | _ => none

/-- 'Delete' is pressed, with no message on the screen. -/
def press (s : State) : Effect := act { s with toast := none } .executeDelete

/-- The deletions it sends. -/
def requests (s : State) : List (Cont × Fetch) := (press s).2.filter fun p => (deletes p.2).isSome

/-- The page after the press, when requests have ended. -/
def finish (s : State) (l : List Completion) : State :=
  l.foldl (fun s x => (resume s x.1.1 x.2).1) (press s).1

/-- The server has answered with success. -/
def Succeeded (x : Completion) : Prop := ∃ res, x.2 = some res ∧ ok res = true

/-- The message is shown, and an id taken out of the selection, only where the server has
answered its deletion with success, and the ids of failed ones stay. -/
structure Truthful (s : State) (l : List Completion) : Prop where
  message : (finish s l).toast = some ("Transaction(s) deleted", "success") →
    ∀ x ∈ l, Succeeded x
  removed : ∀ id ∈ s.selectedIds, id ∉ (finish s l).selectedIds →
    ∃ x ∈ l, deletes x.1.2 = some id ∧ Succeeded x
  kept : ∀ x ∈ l, ¬ Succeeded x → ∀ id, deletes x.1.2 = some id → id ∈ s.selectedIds →
    id ∈ (finish s l).selectedIds

/-! ## The ends of a batch -/

/-- What a deletion ends with, if the page is still there. -/
theorem deleted_report {s : State} (hs : s.left = false) (ht : s.token ≠ none) (ids : List Int32) :
    (deleted (s.set fun s => { s with selectedIds := ids })).1.toast =
        some ("Transaction(s) deleted", "success") ∧
      (deleted (s.set fun s => { s with selectedIds := ids })).1.selectedIds = ids := by
  obtain ⟨token, ht⟩ := Option.ne_none_iff_exists'.mp ht
  unfold deleted fetchExpenses State.showToast State.set
  simp [ht, hs]

/-- What was forgotten is not missed. -/
theorem foldl_gone {b : ℕ} {l : List Completion} (hl : ∀ x ∈ l, x.1.1 = .batch b) {s : State}
    (hb : s.batches.lookup b = none) : l.foldl (fun s x => (resume s x.1.1 x.2).1) s = s := by
  induction l with
  | nil => rfl
  | cons x l ih =>
    have hstep : (resume s x.1.1 x.2).1 = s := by
      rw [hl x List.mem_cons_self]
      show (gotBatch s b x.2).1 = s
      unfold gotBatch
      rw [hb]
    rw [List.foldl_cons, hstep]
    exact ih fun y hy => hl y (List.mem_cons_of_mem x hy)

theorem lookup_others (b : ℕ) (l : List (ℕ × ℕ)) : (l.filter fun p => p.1 != b).lookup b = none := by
  rw [List.lookup_eq_none_iff]
  intro p hp
  have hne := (List.mem_filter.mp hp).2
  simp only [bne_iff_ne, ne_eq] at hne
  simpa using Ne.symm hne

/-- **A batch ends as one.** With a network failure it changes nothing, with answers only
it clears the selection and shows the message. -/
theorem foldl_batch {b : ℕ} {l : List Completion} (hl : ∀ x ∈ l, x.1.1 = .batch b) (hne : l ≠ [])
    {s : State} (hb : s.batches.lookup b = some l.length) (hs : s.left = false)
    (ht : s.token ≠ none) :
    let s' := l.foldl (fun s x => (resume s x.1.1 x.2).1) s
    if ∃ x ∈ l, x.2 = none then s'.toast = s.toast ∧ s'.selectedIds = s.selectedIds
    else s'.toast = some ("Transaction(s) deleted", "success") ∧ s'.selectedIds = [] := by
  induction l generalizing s with
  | nil => exact absurd rfl hne
  | cons x l ih =>
    have htail : ∀ y ∈ l, y.1.1 = .batch b := fun y hy => hl y (List.mem_cons_of_mem x hy)
    have hstep : (resume s x.1.1 x.2).1 = (gotBatch s b x.2).1 := by
      rw [hl x List.mem_cons_self]
      rfl
    dsimp only
    rw [List.foldl_cons, hstep]
    unfold gotBatch
    rw [hb]
    cases hx : x.2 with
    | none =>
      have hany : ∃ y ∈ x :: l, y.2 = none := ⟨x, List.mem_cons_self, hx⟩
      rw [if_pos hany]
      dsimp only
      rw [foldl_gone htail (lookup_others b s.batches)]
      exact ⟨rfl, rfl⟩
    | some res =>
      have hany : (∃ y ∈ x :: l, y.2 = none) ↔ ∃ y ∈ l, y.2 = none := by simp [hx]
      simp only [hany]
      cases l with
      | nil =>
        have hnone : ¬ ∃ y ∈ ([] : List Completion), y.2 = none := by simp
        have hlen : [x].length ≤ 1 := le_refl 1
        rw [if_neg hnone, if_pos hlen]
        exact deleted_report (s := { s with batches := s.batches.filter fun p => p.1 != b }) hs ht []
      | cons y l =>
        have hlen : ¬ (x :: y :: l).length ≤ 1 := by simp only [List.length_cons]; omega
        rw [if_neg hlen]
        refine ih htail (List.cons_ne_nil y l) ?_ hs ht
        simp

/-! ## A page that has been left -/

/-- Nothing is reported on a page that has been left. -/
theorem resume_left {s : State} (hs : s.left = true) (k : Cont) (res : Option Response) :
    (resume s k res).1.left = true ∧ (resume s k res).1.toast = s.toast ∧
      (resume s k res).1.selectedIds = s.selectedIds := by
  cases k with
  | expenses =>
    unfold resume gotExpenses State.set
    grind
  | single k captured =>
    unfold resume gotSingle deleted fetchExpenses State.checkAuth State.showToast State.set
    grind
  | batch b =>
    unfold resume gotBatch deleted fetchExpenses State.checkAuth State.showToast State.set
    grind

theorem foldl_left (l : List Completion) {s : State} (hs : s.left = true) :
    (l.foldl (fun s x => (resume s x.1.1 x.2).1) s).toast = s.toast ∧
      (l.foldl (fun s x => (resume s x.1.1 x.2).1) s).selectedIds = s.selectedIds := by
  induction l generalizing s with
  | nil => exact ⟨rfl, rfl⟩
  | cons x l ih =>
    obtain ⟨hleft, htoast, hsel⟩ := resume_left hs x.1.1 x.2
    obtain ⟨htoast', hsel'⟩ := ih hleft
    exact ⟨htoast'.trans htoast, hsel'.trans hsel⟩

/-! ## The press and its requests -/

theorem checkAuth_here {s : State} (ht : s.token ≠ none) : s.checkAuth = s := by
  obtain ⟨token, ht⟩ := Option.ne_none_iff_exists'.mp ht
  unfold State.checkAuth
  rw [ht]

theorem press_eq {s : State} (hs : shows s .executeDelete = true) :
    press s = executeDelete { s with toast := none } := if_pos hs

theorem deletes_expenses (s : State) :
    ((deleted s).2.filter fun p => (deletes p.2).isSome) = [] := by
  unfold deleted fetchExpenses
  cases s.token <;> rfl

theorem requests_single {s : State} (hs : shows s .executeDelete = true) {id : Int32}
    (hp : truthy s.pendingDeleteId = some id) :
    requests s = [(.single id s.selectedIds, ⟨.deleteExpense id, authorized s.token⟩)] := by
  unfold requests
  rw [press_eq hs]
  unfold executeDelete
  simp only [hp]
  rfl

theorem requests_batch {s : State} (hs : shows s .executeDelete = true)
    (hp : truthy s.pendingDeleteId = none) :
    requests s = s.selectedIds.map fun id =>
      (.batch s.nextBatch, ⟨.deleteExpense id, authorized s.token⟩) := by
  unfold requests
  rw [press_eq hs]
  unfold executeDelete
  simp only [hp]
  split
  · rename_i hnil
    rw [deletes_expenses, hnil]
    rfl
  · rw [List.filter_eq_self]
    intro p hp
    obtain ⟨id, _, rfl⟩ := List.mem_map.mp hp
    rfl

/-- Without a token the page is left at once. -/
theorem press_left {s : State} (hs : shows s .executeDelete = true) (ht : s.token = none) :
    (press s).1.left = true ∧ (press s).1.toast = none ∧
      (press s).1.selectedIds = s.selectedIds := by
  rw [press_eq hs]
  unfold executeDelete deleted fetchExpenses State.checkAuth State.showToast State.set
  grind

/-! ## What is reported -/

/-- Nothing is said, and the selection is as it was. -/
def Silent (s : State) (l : List Completion) : Prop :=
  (finish s l).toast = none ∧ (finish s l).selectedIds = s.selectedIds

/-- The message is shown, and what was sent is out of the selection. -/
def Reports (s : State) (l : List Completion) : Prop :=
  (finish s l).toast = some ("Transaction(s) deleted", "success") ∧
    ∀ id, id ∈ (finish s l).selectedIds ↔
      id ∈ s.selectedIds ∧ ∀ x ∈ l, deletes x.1.2 ≠ some id

section Press

variable {s : State} (hs : shows s .executeDelete = true) (ht : s.token ≠ none)

include hs

theorem left_of_shows : s.left = false := by
  unfold shows at hs
  simp only [Bool.and_eq_true, Bool.not_eq_true'] at hs
  exact hs.1

include ht

theorem press_single {id : Int32} (hp : truthy s.pendingDeleteId = some id) :
    (press s).1 = { s with toast := none } := by
  rw [press_eq hs]
  unfold executeDelete
  rw [checkAuth_here (s := { s with toast := none }) ht]
  simp only [hp]

theorem press_batch (hp : truthy s.pendingDeleteId = none) :
    (press s).1 =
      if s.selectedIds = [] then
        (deleted (({ s with toast := none } : State).set fun s => { s with selectedIds := [] })).1
      else
        { s with toast := none
                 batches := (s.nextBatch, s.selectedIds.length) :: s.batches
                 nextBatch := s.nextBatch + 1 } := by
  rw [press_eq hs]
  unfold executeDelete
  rw [checkAuth_here (s := { s with toast := none }) ht]
  simp only [hp]
  split <;> rfl

theorem finish_single {id : Int32} (hp : truthy s.pendingDeleteId = some id) {x : Completion}
    (hx : x.1 = (.single id s.selectedIds, ⟨.deleteExpense id, authorized s.token⟩)) :
    if x.2 = none then Silent s [x] else Reports s [x] := by
  have hfinish : finish s [x] = (gotSingle { s with toast := none } id s.selectedIds x.2).1 := by
    show (resume (press s).1 x.1.1 x.2).1 = _
    rw [press_single hs ht hp, hx]
    rfl
  unfold Silent Reports
  rw [hfinish]
  cases hres : x.2 with
  | none => exact ⟨rfl, rfl⟩
  | some res =>
    have hdeletes : deletes x.1.2 = some id := by
      rw [hx]
      rfl
    obtain ⟨htoast, hsel⟩ := deleted_report (s := { s with toast := none }) (left_of_shows hs) ht
      (s.selectedIds.filter (· != id))
    refine ⟨htoast, fun id' => ?_⟩
    show id' ∈ (deleted _).1.selectedIds ↔ _
    rw [hsel, List.mem_filter, List.forall_mem_singleton, hdeletes, bne_iff_ne, ne_eq, ne_eq,
      Option.some.injEq, eq_comm (a := id)]

theorem finish_empty (hp : truthy s.pendingDeleteId = none) (hnil : s.selectedIds = []) :
    Reports s [] := by
  have hfinish : finish s [] = (press s).1 := rfl
  unfold Reports
  rw [hfinish, press_batch hs ht hp, if_pos hnil]
  obtain ⟨htoast, hsel⟩ :=
    deleted_report (s := { s with toast := none }) (left_of_shows hs) ht []
  refine ⟨htoast, fun id => ?_⟩
  rw [hsel, hnil]
  simp

theorem finish_batch (hp : truthy s.pendingDeleteId = none) (hnil : s.selectedIds ≠ [])
    {l : List Completion} (hl : (l.map Prod.fst).Perm (s.selectedIds.map fun id =>
      (.batch s.nextBatch, ⟨.deleteExpense id, authorized s.token⟩))) :
    if ∃ x ∈ l, x.2 = none then Silent s l else Reports s l := by
  have hcont : ∀ x ∈ l, x.1.1 = .batch s.nextBatch := by
    intro x hx
    obtain ⟨id, _, hid⟩ := List.mem_map.mp (hl.mem_iff.mp (List.mem_map_of_mem hx))
    rw [← hid]
  have hlen : l.length = s.selectedIds.length := by
    simpa using hl.length_eq
  have hne : l ≠ [] := by
    intro h
    rw [h] at hlen
    exact hnil (List.length_eq_zero_iff.mp hlen.symm)
  have hdeleted : ∀ id ∈ s.selectedIds, ∃ x ∈ l, deletes x.1.2 = some id := by
    intro id hid
    obtain ⟨x, hx, hxid⟩ := List.mem_map.mp (hl.mem_iff.mpr (List.mem_map_of_mem hid))
    exact ⟨x, hx, by rw [hxid]; rfl⟩
  have hbatch := foldl_batch hcont hne (s := { s with
    toast := none
    batches := (s.nextBatch, s.selectedIds.length) :: s.batches
    nextBatch := s.nextBatch + 1 }) (by simp [hlen]) (left_of_shows hs) ht
  unfold Silent Reports finish
  rw [press_batch hs ht hp, if_neg hnil]
  split
  · rename_i hany
    rwa [if_pos hany] at hbatch
  · rename_i hany
    rw [if_neg hany] at hbatch
    refine ⟨hbatch.1, fun id => ?_⟩
    rw [hbatch.2]
    simp only [List.not_mem_nil, false_iff, not_and]
    intro hid h
    obtain ⟨x, hx, hxid⟩ := hdeleted id hid
    exact h x hx hxid

/-- **The page when all requests have ended.** Failing at the network, a deletion changes
nothing; otherwise it shows the message and takes what it sent out of the selection. -/
theorem finish_eq {l : List Completion} (hl : (l.map Prod.fst).Perm (requests s)) :
    if ∃ x ∈ l, x.2 = none then Silent s l else Reports s l := by
  cases hp : truthy s.pendingDeleteId with
  | some id =>
    rw [requests_single hs hp, List.perm_singleton, List.map_eq_singleton_iff] at hl
    obtain ⟨x, rfl, hx⟩ := hl
    have hsingle := finish_single hs ht hp hx
    have hany : (∃ y ∈ [x], y.2 = none) ↔ x.2 = none := by
      simp only [List.mem_singleton, exists_eq_left]
    simpa only [hany] using hsingle
  | none =>
    rw [requests_batch hs hp] at hl
    by_cases hnil : s.selectedIds = []
    · rw [hnil, List.map_nil, List.perm_nil, List.map_eq_nil_iff] at hl
      rw [hl, if_neg fun ⟨x, hx, _⟩ => List.not_mem_nil hx]
      exact finish_empty hs ht hp hnil
    · exact finish_batch hs ht hp hnil hl

end Press

/-- Silence is true. -/
theorem Silent.truthful {s : State} {l : List Completion} (h : Silent s l) : Truthful s l := by
  obtain ⟨htoast, hsel⟩ := h
  refine ⟨fun hmsg => ?_, fun id hid hnot => ?_, fun x _ _ id _ hid => ?_⟩
  · rw [htoast] at hmsg
    cases hmsg
  · rw [hsel] at hnot
    exact absurd hid hnot
  · rw [hsel]
    exact hid

/-- A report is true when everything has succeeded. -/
theorem Reports.truthful_iff {s : State} {l : List Completion} (h : Reports s l) :
    Truthful s l ↔ ∀ x ∈ l, Succeeded x := by
  obtain ⟨htoast, hsel⟩ := h
  constructor
  · intro h
    exact h.message htoast
  · intro hall
    refine ⟨fun _ => hall, fun id hid hnot => ?_, fun x hx hfail => absurd (hall x hx) hfail⟩
    have hsent : ∃ x ∈ l, deletes x.1.2 = some id := by
      by_contra h
      push Not at h
      exact hnot ((hsel id).mpr ⟨hid, h⟩)
    obtain ⟨x, hx, hxid⟩ := hsent
    exact ⟨x, hx, hxid, hall x hx⟩

/-- On the Transactions page, for every selection, single id and token, and every end of
the requests of a press of 'Delete' in any order: what is reported is true if and only if
there is no token, a request fails at the network, or every answer is a success. -/
theorem reported_iff {s : State} (hs : shows s .executeDelete = true) {l : List Completion}
    (hl : (l.map Prod.fst).Perm (requests s)) :
    Truthful s l ↔ s.token = none ∨ (∃ x ∈ l, x.2 = none) ∨ ∀ x ∈ l, Succeeded x := by
  by_cases ht : s.token = none
  · obtain ⟨hleft, htoast, hsel⟩ := press_left hs ht
    obtain ⟨htoast', hsel'⟩ := foldl_left l hleft
    have hsilent : Silent s l := ⟨htoast'.trans htoast, hsel'.trans hsel⟩
    exact iff_of_true hsilent.truthful (Or.inl ht)
  have hfinish := finish_eq hs ht hl
  by_cases hany : ∃ x ∈ l, x.2 = none
  · rw [if_pos hany] at hfinish
    exact iff_of_true hfinish.truthful (Or.inr (Or.inl hany))
  · rw [if_neg hany] at hfinish
    rw [hfinish.truthful_iff, or_iff_right ht, or_iff_right hany]

/-- The Dashboard reports a deletion exactly when the server has answered it with success. -/
theorem dashboard_reported (token : Bytes) {s : Dashboard.State} (hs : s.left = false)
    (res : Option Response) :
    (Dashboard.gotDeleted token { s with toast := none } res).1.toast =
        some ("Expense removed.", "success") ↔ ∃ r, res = some r ∧ ok r = true := by
  unfold Dashboard.gotDeleted Dashboard.State.showToast Dashboard.State.set
    Dashboard.State.handleUnauthorized
  cases res with
  | none => simp [hs]
  | some res =>
    by_cases h401 : res.code = 401
    · have hok : ok res ≠ true := fun hok => ok_ne_401 hok h401
      simp [h401, hok]
    · cases hok : ok res <;> simp [h401, hok, hs]

/-! ## A deletion the server refuses -/

/-- The list arrives, both entries are ticked, and 'Delete Selected'. -/
def bothTicked : List (Event Action Fault) :=
  [.serve 0 .none, .deliver 0, .act (.check 1 true), .act (.check 2 true), .act .handleBatchDelete]

/-- The server's answers to the two deletions, with their faults. -/
def answered (fs : List Fault) : List Completion :=
  let sent := requests (Batch.twoRun bothTicked).page
  sent.zip (sent.zipWith (fun p f => some (handled Crypto.zero (authenticate Crypto.zero)
    MySql.plain (.idle twoDb) p.2 f).1) fs)

theorem answered_requests {fs : List Fault} (hfs : fs.length = 2) :
    (answered fs).map Prod.fst = requests (Batch.twoRun bothTicked).page := by
  have hlen : (requests (Batch.twoRun bothTicked).page).length = 2 := by decide +kernel
  unfold answered
  apply List.map_fst_zip
  rw [List.length_zipWith, hlen, hfs]
  exact le_refl 2

/-- Both are deleted, and that is what is reported. -/
theorem reported_both :
    Truthful (Batch.twoRun bothTicked).page (answered [.none, .none]) := by
  have hs : shows (Batch.twoRun bothTicked).page .executeDelete = true := by decide +kernel
  have hcodes : ∀ x ∈ answered [.none, .none], (x.2.map ok).getD false = true := by decide +kernel
  refine (reported_iff hs (List.Perm.of_eq (answered_requests rfl))).mpr
    (Or.inr (Or.inr fun x hx => ?_))
  have hok := hcodes x hx
  unfold Succeeded
  cases hres : x.2 with
  | none =>
    rw [hres] at hok
    cases hok
  | some res =>
    rw [hres] at hok
    exact ⟨res, rfl, hok⟩

/-- The second deletion fails in the database. Entry 2 is kept, and the message is shown. -/
theorem reported_failed :
    let s := (Batch.twoRun bothTicked).page
    let l := answered [.none, ⟨true, false⟩]
    shows s .executeDelete = true ∧
      l.map (fun x => (deletes x.1.2, x.2.map Response.code)) =
        [(some 1, some 200), (some 2, some 500)] ∧
      (finish s l).toast = some ("Transaction(s) deleted", "success") ∧
      (finish s l).selectedIds = [] ∧
      ¬ ∀ (s : State) (l : List Completion), shows s .executeDelete = true →
        (l.map Prod.fst).Perm (requests s) → Truthful s l := by
  intro s l
  have hrun : shows s .executeDelete = true ∧
      l.map (fun x => (deletes x.1.2, x.2.map Response.code)) =
        [(some 1, some 200), (some 2, some 500)] ∧
      (finish s l).toast = some ("Transaction(s) deleted", "success") ∧
      (finish s l).selectedIds = [] := by decide +kernel
  obtain ⟨hs, hends, htoast, hsel⟩ := hrun
  refine ⟨hs, hends, htoast, hsel, fun h => ?_⟩
  have htrue := h s l hs (List.Perm.of_eq (answered_requests rfl))
  have hfail : (some 2, some 500) ∈ l.map fun x => (deletes x.1.2, x.2.map Response.code) := by
    rw [hends]
    exact List.mem_cons_of_mem _ List.mem_cons_self
  obtain ⟨x, hx, hxeq⟩ := List.mem_map.mp hfail
  obtain ⟨res, hres, hok⟩ := htrue.message htoast x hx
  rw [hres] at hxeq
  have hcode : res.code = 500 := Option.some.inj (Prod.mk.inj hxeq).2
  unfold ok at hok
  rw [hcode] at hok
  cases hok

end ExpenseTracker.L5.Reported
