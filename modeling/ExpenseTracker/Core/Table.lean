import Mathlib.Algebra.Group.Nat.Defs
import Mathlib.Data.List.Nodup

/-!
# Tables with an AUTO_INCREMENT key

A table of an SQL server whose key is `INT AUTO_INCREMENT`: the rows in key
order and the counter. Every key is below the counter and no key occurs
twice; the structure carries both.

* `insert_spec`: an inserted row takes a key no other row has.
* `select_insert_of_not`, `select_delete_of_not`: inserting and deleting rows
  outside a `WHERE` does not show in it.
-/
namespace ExpenseTracker.Core

/-- A table. The row count is bounded by the range of `INT`. -/
structure Table (ρ : Type) where
  rows : List (Int32 × ρ)
  counter : ℕ
  below : ∀ r ∈ rows, r.1.toInt < counter
  nodup : (rows.map Prod.fst).Nodup

namespace Table

variable {ρ : Type}

/-- A table no row was ever put in. -/
def empty : Table ρ := ⟨[], 1, by simp, by simp⟩

/-- The key the next row gets. -/
def nextKey (t : Table ρ) : Int32 := Int32.ofNat t.counter

theorem toInt_nextKey {t : Table ρ} (h : t.counter < 2 ^ 31) : t.nextKey.toInt = t.counter :=
  Int32.toInt_ofNat_of_lt h

theorem nextKey_notMem {t : Table ρ} (h : t.counter < 2 ^ 31) : t.nextKey ∉ t.rows.map Prod.fst := by
  intro hm
  obtain ⟨r, hr, he⟩ := List.mem_map.mp hm
  have hb := t.below r hr
  rw [he, toInt_nextKey h] at hb
  omega

/-- `INSERT` of a row without its key; it fails when the keys are used up. -/
def insert (t : Table ρ) (r : ρ) : Option (Table ρ) :=
  if h : t.counter < 2 ^ 31 then
    some
      { rows := t.rows ++ [(t.nextKey, r)]
        counter := t.counter + 1
        below := by
          intro x hx
          rcases List.mem_append.mp hx with hx | hx
          · have := t.below x hx
            omega
          · rw [List.mem_singleton.mp hx, toInt_nextKey h]
            omega
        nodup := by
          rw [List.map_append, List.map_singleton]
          refine List.nodup_append.mpr ⟨t.nodup, List.nodup_singleton _, ?_⟩
          intro k hk k' hk' he
          rw [List.mem_singleton] at hk'
          rw [he, hk'] at hk
          exact nextKey_notMem h hk }
  else none

/-- `DELETE ... WHERE id = k`. -/
def delete (t : Table ρ) (k : Int32) : Table ρ where
  rows := t.rows.filter fun r => r.1 != k
  counter := t.counter
  below r hr := t.below r (List.mem_of_mem_filter hr)
  nodup := t.nodup.sublist (List.filter_sublist.map Prod.fst)

/-- The rows whose columns meet `p`, in key order. -/
def select (t : Table ρ) (p : ρ → Bool) : List (Int32 × ρ) := t.rows.filter fun r => p r.2

theorem insert_spec {t t' : Table ρ} {r : ρ} (h : t.insert r = some t') :
    t'.rows = t.rows ++ [(t.nextKey, r)] ∧ t.nextKey ∉ t.rows.map Prod.fst := by
  unfold insert at h
  split at h
  · rename_i hc
    cases h
    exact ⟨rfl, nextKey_notMem hc⟩
  · cases h

/-- What holds of the rows, and of the one inserted. -/
theorem forall_insert {t t' : Table ρ} {r : ρ} {P : Int32 × ρ → Prop} (h : t.insert r = some t')
    (hold : ∀ x ∈ t.rows, P x) (hnew : P (t.nextKey, r)) : ∀ x ∈ t'.rows, P x := by
  intro x hx
  rw [(insert_spec h).1] at hx
  rcases List.mem_append.mp hx with hx | hx
  · exact hold x hx
  · rw [List.mem_singleton.mp hx]
    exact hnew

@[simp] theorem rows_delete (t : Table ρ) (k : Int32) :
    (t.delete k).rows = t.rows.filter fun r => r.1 != k := rfl

theorem mem_delete {t : Table ρ} {k : Int32} {r : Int32 × ρ} :
    r ∈ (t.delete k).rows ↔ r ∈ t.rows ∧ r.1 ≠ k := by
  simp

theorem mem_select {t : Table ρ} {p : ρ → Bool} {r : Int32 × ρ} :
    r ∈ t.select p ↔ r ∈ t.rows ∧ p r.2 = true := by
  simp [select]

/-- A row outside a `WHERE` does not show in it. -/
theorem select_insert_of_not {t t' : Table ρ} {r : ρ} {p : ρ → Bool} (h : t.insert r = some t')
    (hp : p r = false) : t'.select p = t.select p := by
  simp [select, (insert_spec h).1, hp]

/-- A deletion that hits no row of a `WHERE` leaves it unchanged. -/
theorem select_delete_of_not {t : Table ρ} {k : Int32} {p : ρ → Bool}
    (h : ∀ r ∈ t.rows, r.1 = k → p r.2 = false) : (t.delete k).select p = t.select p := by
  unfold select
  rw [rows_delete, List.filter_filter]
  refine List.filter_congr fun r hr => ?_
  by_cases hk : r.1 = k
  · simp [h r hr hk]
  · simp [hk]

end Table

end ExpenseTracker.Core
