import ExpenseTracker.Core.SharedConn
import ExpenseTracker.Core.Table

/-!
# How a database evolves

What every statement keeps is kept by every program, however its calls are
mixed with those of others and whichever of them fail. And what becomes of a
table to which rows are added, and from which they are taken, by key.

* `Keeps.run`, `Keeps.sharing`: from statements to runs.
* `Table.Later.trans`: a table over time. A row stays as it is until its key is
  deleted, and a key is not used twice.
-/
namespace ExpenseTracker.Core

/-! ## What statements keep -/

section Keeps

variable {D Q R E α : Type} {ex : Exec D Q R} {P : D → Prop}

/-- Every statement carried out keeps `P`. -/
def Keeps (ex : Exec D Q R) (P : D → Prop) : Prop :=
  ∀ d q d' rs, ex d q = some (d', rs) → P d → P d'

theorem Keeps.query (h : Keeps ex P) {f : Fault} {c : Conn D R} (hc : P c.db) (q : Q) :
    P (c.query ex f q).2.db := by
  unfold Conn.query
  split
  · exact hc
  split
  · exact hc
  · rename_i d rs he
    exact h _ _ _ _ he hc

/-- A program alone on the connection. -/
theorem Keeps.run (h : Keeps ex P) {f : Fault} (p : Prog Q R E α) {c : Conn D R} (hc : P c.db) :
    P (p.run ex f c).2.db := by
  induction p generalizing c with
  | ret a => exact hc
  | raise e => exact hc
  | query q k ih => exact ih _ (h.query hc q)
  | store k ih => exact ih _ hc

/-- Any number of programs that take turns. -/
theorem Keeps.sharing (h : Keeps ex P) {ι : Type} [DecidableEq ι] {β : ι → Type} :
    (sharing (E := E) (α := β) ex).Inductive fun s => P s.conn.db := by
  intro s i hs
  show P ((s.progs i).call ex s.conn).2.db
  cases s.progs i with
  | ret a => exact hs
  | raise e => exact hs
  | query q k => exact h.query hs q
  | store k => exact hs

end Keeps

/-! ## A table over time -/

namespace Table

variable {ρ : Type} {t t' t'' : Table ρ} {gone gone' : List Int32}

/-- `t'` is `t` some time later, the rows with the keys `gone` deleted since. -/
structure Later (gone : List Int32) (t t' : Table ρ) : Prop where
  counter : t.counter ≤ t'.counter
  rows : ∃ new, t'.rows = (t.rows.filter fun r => !gone.contains r.1) ++ new ∧
    ∀ r ∈ new, (t.counter : ℤ) ≤ r.1.toInt

theorem Later.refl (t : Table ρ) : Later [] t t :=
  ⟨Nat.le_refl _, [], by simp, by simp⟩

theorem later_insert {r : ρ} (h : t.insert r = some t') : Later [] t t' := by
  unfold insert at h
  split at h
  · rename_i hc
    cases h
    refine ⟨Nat.le_succ _, [(t.nextKey, r)], by simp, ?_⟩
    intro x hx
    have hkey : x = (t.nextKey, r) := List.mem_singleton.mp hx
    exact hkey ▸ Int.le_of_eq (toInt_nextKey hc).symm
  · cases h

theorem later_delete (t : Table ρ) (k : Int32) : Later [k] t (t.delete k) := by
  refine ⟨Nat.le_refl _, [], ?_, by simp⟩
  rw [rows_delete, List.append_nil]
  refine List.filter_congr fun r _ => ?_
  by_cases hk : r.1 = k <;> simp [hk]

theorem Later.trans (h : Later gone t t') (h' : Later gone' t' t'') : Later (gone ++ gone') t t'' := by
  obtain ⟨hc, new, hrows, hnew⟩ := h
  obtain ⟨hc', new', hrows', hnew'⟩ := h'
  refine ⟨Nat.le_trans hc hc', (new.filter fun r => !gone'.contains r.1) ++ new', ?_, ?_⟩
  · rw [hrows', hrows, List.filter_append, List.filter_filter, List.append_assoc]
    congr 1
    refine List.filter_congr fun r _ => ?_
    simp [Bool.and_comm]
  · intro r hr
    rcases List.mem_append.mp hr with hr | hr
    · exact hnew r (List.mem_of_mem_filter hr)
    · have := hnew' r hr
      omega

/-- The rows of a `WHERE`, some time later. -/
theorem Later.select (h : Later gone t t') (p : ρ → Bool) : ∃ new,
    t'.select p = ((t.select p).filter fun r => !gone.contains r.1) ++ new ∧
      ∀ r ∈ new, (t.counter : ℤ) ≤ r.1.toInt := by
  obtain ⟨_, new, hrows, hnew⟩ := h
  refine ⟨new.filter fun r => p r.2, ?_, fun r hr => hnew r (List.mem_of_mem_filter hr)⟩
  unfold Table.select
  rw [hrows, List.filter_append, List.filter_filter, List.filter_filter]
  congr 1
  refine List.filter_congr fun r _ => Bool.and_comm _ _

end Table

end ExpenseTracker.Core
