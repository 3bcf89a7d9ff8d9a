import ExpenseTracker.L5Pages.Dashboard

/-!
# Deleting on the Dashboard

`pendingDeleteId` is one slot: the trash button of a row writes it, and the `finally`
of every deletion clears it, whenever that deletion comes to its end. This module
follows the slot through every order of the two.

* `act_slot`, `resume_slot`: who writes the slot.
* `slot_after`: what is in it while a dialog stays open.
* `delete_pressed`: a press of 'Delete it' deletes the entry of its dialog exactly when
  no deletion has come to its end since the dialog was opened.
-/
namespace ExpenseTracker.L5.Deletion

open ExpenseTracker.Core
open ExpenseTracker.L1.Password
open ExpenseTracker.L2.Schema ExpenseTracker.L2.Statement ExpenseTracker.L2.Server
open ExpenseTracker.L3.Json ExpenseTracker.L3.Routes
open ExpenseTracker.L4.Tokens ExpenseTracker.L5.Http ExpenseTracker.L5.Dashboard

/-- The actions that open or close the delete dialog. -/
def onDialog : Action → Bool
  | .confirmDelete _ | .cancelDelete | .executeDelete => true
  | _ => false

section Callbacks

variable (token : Bytes) (add : Double → Double → Double) (stringify : Form → RValue)

/-- Every other action leaves the dialog and its slot alone. -/
theorem act_slot {a : Action} (ha : onDialog a = false) (s : State) :
    (act token stringify s a).1.deleteModalOpen = s.deleteModalOpen ∧
      (act token stringify s a).1.pendingDeleteId = s.pendingDeleteId ∧
      (act token stringify s a).1.left = s.left := by
  unfold act
  split
  · cases a with
    | confirmDelete id => cases ha
    | cancelDelete => cases ha
    | executeDelete => cases ha
    | _ => exact ⟨rfl, rfl, rfl⟩
  · exact ⟨rfl, rfl, rfl⟩

/-- Code behind an `await` leaves the dialog open; behind a deletion it clears the
slot. A page that has been left stays left. -/
theorem resume_slot (s : State) (k : Cont) (res : Option Response) :
    (s.left = true → (resume token add s k res).1.left = true) ∧
      (resume token add s k res).1.deleteModalOpen = s.deleteModalOpen ∧
      ((resume token add s k res).1.left = false →
        (resume token add s k res).1.pendingDeleteId =
          if k = .deleted then none else s.pendingDeleteId) := by
  cases k with
  | expenses =>
    unfold resume gotExpenses State.showToast State.set State.handleUnauthorized
    grind
  | savings =>
    unfold resume gotSavings State.showToast State.set
    grind
  | added =>
    unfold resume gotAdded State.showToast State.set State.handleUnauthorized
    grind
  | deleted =>
    unfold resume gotDeleted State.showToast State.set State.handleUnauthorized
    grind

end Callbacks

/-! ## While a dialog is open -/

section Runs

variable {token : Bytes} {add : Double → Double → Double} {stringify : Form → RValue}
variable {D F : Type} {handle : D → Fetch → F → Response × D}

/-- No deletion comes to its end. -/
def Undisturbed (w : World State Cont Fetch D Response) (e : Event Action F) : Prop :=
  ∀ res, AsyncClient.resumed w e ≠ some (.deleted, res)

/-- One event that is no dialog action. -/
theorem slot_next {e : Event Action F} (he : ∀ a, e = .act a → onDialog a = false)
    {w : World State Cont Fetch D Response}
    (hleft : (((page token add stringify).machine handle).next w e).page.left = false) :
    w.page.left = false ∧
      (((page token add stringify).machine handle).next w e).page.deleteModalOpen =
        w.page.deleteModalOpen ∧
      (Undisturbed w e →
        (((page token add stringify).machine handle).next w e).page.pendingDeleteId =
          w.page.pendingDeleteId) ∧
      (¬ Undisturbed w e →
        (((page token add stringify).machine handle).next w e).page.pendingDeleteId = none) := by
  rcases (AsyncClient.happens (page token add stringify) handle w e).page with
    ⟨a, ha, hpage⟩ | ⟨k, res, hk, hpage⟩ | ⟨hk, _, hpage⟩
  · have hund : Undisturbed w e := by
      intro res h
      rw [ha] at h
      cases h
    obtain ⟨hopen, hslot, hl⟩ := act_slot token stringify (he a ha) w.page
    rw [hpage] at hleft ⊢
    exact ⟨hl.symm.trans hleft, hopen, fun _ => hslot, fun h => absurd hund h⟩
  · obtain ⟨hl, hopen, hslot⟩ := resume_slot token add w.page k res
    rw [hpage] at hleft ⊢
    have hslot := hslot hleft
    refine ⟨?_, hopen, fun h => ?_, fun h => ?_⟩
    · cases hw : w.page.left with
      | false => rfl
      | true => exact absurd ((hl hw).symm.trans hleft) Bool.noConfusion
    · have hne : k ≠ .deleted := fun hd => h res (hd ▸ hk)
      rwa [if_neg hne] at hslot
    · have hd : k = .deleted := by
        by_contra hne
        apply h
        intro res' h'
        rw [hk] at h'
        exact hne (Prod.mk.inj (Option.some.inj h')).1
      rwa [if_pos hd] at hslot
  · have hund : Undisturbed w e := by
      intro res h
      rw [hk] at h
      cases h
    rw [hpage] at hleft ⊢
    exact ⟨hleft, rfl, fun _ => rfl, fun h => absurd hund h⟩

/-- **The slot of an open dialog.** It is kept until a deletion comes to its end,
and then stays empty. -/
theorem slot_after {ys : List (Event Action F)} (hys : ∀ a, .act a ∈ ys → onDialog a = false)
    {w : World State Cont Fetch D Response}
    (hleft : (((page token add stringify).machine handle).after w ys).page.left = false) :
    w.page.left = false ∧
      (((page token add stringify).machine handle).after w ys).page.deleteModalOpen =
        w.page.deleteModalOpen ∧
      (((page token add stringify).machine handle).Along Undisturbed w ys →
        (((page token add stringify).machine handle).after w ys).page.pendingDeleteId =
          w.page.pendingDeleteId) ∧
      (¬ ((page token add stringify).machine handle).Along Undisturbed w ys →
        (((page token add stringify).machine handle).after w ys).page.pendingDeleteId = none) := by
  induction ys generalizing w with
  | nil => exact ⟨hleft, rfl, fun _ => rfl, fun h => absurd trivial h⟩
  | cons e ys ih =>
    have he : ∀ a, e = .act a → onDialog a = false := fun a ha => hys a (ha ▸ List.mem_cons_self)
    obtain ⟨hl, hopen, hkept, hcleared⟩ := ih (fun a ha => hys a (List.mem_cons_of_mem _ ha)) hleft
    obtain ⟨hl', hopen', hkept', hcleared'⟩ := slot_next he hl
    refine ⟨hl', hopen.trans hopen', ?_, ?_⟩
    · intro ⟨hund, halong⟩
      exact (hkept halong).trans (hkept' hund)
    · intro hnot
      by_cases halong : ((page token add stringify).machine handle).Along Undisturbed
          (((page token add stringify).machine handle).next w e) ys
      · have hund : ¬ Undisturbed w e := fun h => hnot ⟨h, halong⟩
        exact (hkept halong).trans (hcleared' hund)
      · exact hcleared halong

end Runs

/-! ## The press -/

section Press

variable (token : Bytes) (add : Double → Double → Double) (stringify : Form → RValue)

/-- The request of a deletion. -/
def deletion (id : Int32) : Fetch := ⟨.deleteExpense id, bearer token none⟩

/-- 'Delete it' sends the deletion of what is in the slot. -/
theorem act_executeDelete {s : State} (hs : shows s .executeDelete = true) :
    (act token stringify s .executeDelete).2.map Prod.snd =
      ((truthy s.pendingDeleteId).map (deletion token)).toList := by
  unfold act
  rw [if_pos hs]
  unfold handler
  dsimp only
  cases truthy s.pendingDeleteId <;> rfl

/-- In every run of the Dashboard, against any server: a press of 'Delete it' in a dialog
opened for a displayed entry `k` sends the one deletion of `k` if and only if `k` is not 0 and
no deletion came to its end while the dialog was open. It sends nothing else. -/
theorem delete_pressed {D F : Type} (handle : D → Fetch → F → Response × D)
    (signedIn : Option Bytes) (d : D) (xs ys : List (Event Action F)) (k : Int32) :
    let M := (page token add stringify).machine handle
    let w₀ := AsyncClient.boot (mount signedIn) d
    let opened := M.next (M.after w₀ xs) (.act (.confirmDelete k))
    shows (M.after w₀ xs).page (.confirmDelete k) = true →
    (∀ a, .act a ∈ ys → onDialog a = false) →
    shows (M.after opened ys).page .executeDelete = true →
      (M.out (M.after opened ys) (.act .executeDelete) = [deletion token k] ↔
        k ≠ 0 ∧ M.Along Undisturbed opened ys) ∧
      ∀ x ∈ M.out (M.after opened ys) (.act .executeDelete), x = deletion token k := by
  intro M w₀ opened hopened hstays hpress
  have hopen : opened.page.pendingDeleteId = some k := by
    show (act token stringify _ (.confirmDelete k)).1.pendingDeleteId = _
    unfold act
    rw [if_pos hopened]
    rfl
  have hleft : (M.after opened ys).page.left = false := by
    unfold shows at hpress
    simp at hpress
    exact hpress.1
  obtain ⟨_, _, hkept, hcleared⟩ := slot_after hstays hleft
  have hout : M.out (M.after opened ys) (.act .executeDelete) =
      ((truthy (M.after opened ys).page.pendingDeleteId).map (deletion token)).toList :=
    act_executeDelete token stringify hpress
  by_cases hund : M.Along Undisturbed opened ys
  · rw [hout, hkept hund, hopen]
    by_cases hk : k = 0
    · subst hk
      simp [truthy]
    · simp [truthy, hk, hund]
  · rw [hout, hcleared hund]
    simp [truthy, hund]

end Press

/-! ## Two deletions -/

/-- The Dashboard of user 1, who has two expenses, and the server. -/
def twoRun : Machine (World State Cont Fetch (Conn Db ResultSet) Response) (Event Action Fault)
    (List Fetch) :=
  (page annToken (fun x _ => x) fun _ => .null).machine
    (handled Crypto.zero (authenticate Crypto.zero) MySql.plain)

/-- The list and the savings arrive, and 'Delete it' is pressed for entry 1. -/
def firstPress : List (Event Action Fault) :=
  [.serve 0 .none, .deliver 0, .serve 0 .none, .deliver 0, .act (.confirmDelete 1),
    .act .executeDelete]

/-- In the dialog of entry 2 opened next, 'Delete it' deletes entry 2. -/
theorem delete_pressed_two :
    twoRun.out (twoRun.after (AsyncClient.boot (mount (some annToken)) (.idle twoDb))
      (firstPress ++ [.act (.confirmDelete 2)])) (.act .executeDelete) = [deletion annToken 2] := by
  have hrun : shows (twoRun.after (AsyncClient.boot (mount (some annToken)) (.idle twoDb))
        firstPress).page (.confirmDelete 2) = true ∧
      shows (twoRun.after (AsyncClient.boot (mount (some annToken)) (.idle twoDb))
        (firstPress ++ [.act (.confirmDelete 2)])).page .executeDelete = true := by decide +kernel
  obtain ⟨hopened, hpress⟩ := hrun
  rw [Machine.after_snoc] at hpress ⊢
  unfold twoRun at hopened hpress ⊢
  have key := delete_pressed annToken (fun x _ => x) (fun _ => .null)
    (handled Crypto.zero (authenticate Crypto.zero) MySql.plain) (some annToken) (.idle twoDb)
    firstPress [] 2 hopened (fun a ha => absurd ha List.not_mem_nil)
  exact (key hpress).1.mpr ⟨by decide, trivial⟩

/-- The dialog of entry 2 is open when the first deletion comes to its end. Its
'Delete it' sends nothing. -/
theorem delete_lost :
    shows (twoRun.after (AsyncClient.boot (mount (some annToken)) (.idle twoDb)) firstPress).page
        (.confirmDelete 2) = true ∧
      shows (twoRun.after (AsyncClient.boot (mount (some annToken)) (.idle twoDb))
        (firstPress ++ [.act (.confirmDelete 2), .serve 0 .none, .deliver 0])).page
          .executeDelete = true ∧
      twoRun.out (twoRun.after (AsyncClient.boot (mount (some annToken)) (.idle twoDb))
        (firstPress ++ [.act (.confirmDelete 2), .serve 0 .none, .deliver 0]))
          (.act .executeDelete) = [] := by
  rw [← List.isEmpty_iff]
  decide +kernel

end ExpenseTracker.L5.Deletion
