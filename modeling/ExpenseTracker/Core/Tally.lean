import Mathlib.Algebra.BigOperators.Group.List.Basic
import Mathlib.Data.List.Nodup
import Mathlib.Data.List.Perm.Basic
import Mathlib.Data.Nat.Cast.Defs
import Mathlib.Algebra.CharZero.Defs

/-!
# Sums by key

Objects whose keys keep the order in which they were added, and the two loops that sum a
list into one: `tally` adds every weight at the key of its item, and `accrue` updates the
keys that are there and no other.

* `entries_foldl_set`: new keys, added one after the other.
* `get_tally`, `mem_keys_tally`, `sum_tally`: a tally holds each key of the list once,
  with the sum of its weights, and loses nothing; `tally_perm`.
* `entries_accrue`: what `accrue` makes of every entry.
* `sums_agree_iff`: two filters of a list have the same sum, whatever the weights,
  exactly when they keep the same items.
-/
namespace ExpenseTracker.Core

/-! ## Objects -/

structure OrdMap (κ α : Type) where
  entries : List (κ × α)
  nodup : (entries.map Prod.fst).Nodup

namespace OrdMap

variable {κ α β : Type}

def empty : OrdMap κ α := ⟨[], List.nodup_nil⟩

def keys (o : OrdMap κ α) : List κ := o.entries.map Prod.fst

def values (o : OrdMap κ α) : List α := o.entries.map Prod.snd

variable [DecidableEq κ]

/-- The value of a key in a list of entries. -/
def find (k : κ) : List (κ × α) → Option α
  | [] => none
  | p :: l => if p.1 = k then some p.2 else find k l

/-- A key keeps its place, a new one is the last. -/
def put (k : κ) (a : α) : List (κ × α) → List (κ × α)
  | [] => [(k, a)]
  | p :: l => if p.1 = k then (k, a) :: l else p :: put k a l

theorem keys_put (k : κ) (a : α) (l : List (κ × α)) :
    (put k a l).map Prod.fst =
      if k ∈ l.map Prod.fst then l.map Prod.fst else l.map Prod.fst ++ [k] := by
  induction l with
  | nil => rfl
  | cons p l ih =>
    unfold put
    by_cases h : p.1 = k
    · simp [h]
    · have hne : ¬ k = p.1 := Ne.symm h
      rw [if_neg h, List.map_cons, ih]
      simp only [List.map_cons, List.mem_cons, hne, false_or]
      split <;> rfl

theorem find_put (k k' : κ) (a : α) (l : List (κ × α)) :
    find k' (put k a l) = if k' = k then some a else find k' l := by
  induction l with
  | nil =>
    unfold put find
    by_cases h : k' = k
    · simp [h]
    · simp [h, Ne.symm h, find]
  | cons p l ih =>
    unfold put
    by_cases h : p.1 = k
    · rw [if_pos h]
      unfold find
      by_cases hk : k' = k
      · simp [hk]
      · simp [hk, h, Ne.symm hk]
    · rw [if_neg h]
      unfold find
      rw [ih]
      by_cases hp : p.1 = k'
      · have hk : k' ≠ k := fun hk => h (hp.trans hk)
        simp [hp, hk]
      · simp [hp]

theorem find_eq_some {l : List (κ × α)} (h : (l.map Prod.fst).Nodup) {k : κ} {a : α} :
    find k l = some a ↔ (k, a) ∈ l := by
  induction l with
  | nil => simp [find]
  | cons p l ih =>
    rw [List.map_cons, List.nodup_cons] at h
    unfold find
    rw [List.mem_cons]
    by_cases hk : p.1 = k
    · have hnot : (k, a) ∉ l := fun hm => h.1 (hk ▸ List.mem_map_of_mem hm)
      simp only [hk, if_true, Option.some.injEq, hnot, or_false]
      constructor
      · rintro rfl
        rw [← hk]
      · intro he
        rw [← he]
    · have hne : ¬ (k, a) = p := fun he => hk (he ▸ rfl)
      simp only [hk, if_false, hne, false_or]
      exact ih h.2

/-- `o[k]` -/
def get (o : OrdMap κ α) (k : κ) : Option α := find k o.entries

/-- `o[k] = a` -/
def set (o : OrdMap κ α) (k : κ) (a : α) : OrdMap κ α where
  entries := put k a o.entries
  nodup := by
    rw [keys_put]
    split
    · exact o.nodup
    · rename_i h
      exact List.nodup_append.mpr ⟨o.nodup, List.nodup_singleton _, fun x hx y hy he =>
        h (List.mem_singleton.mp hy ▸ he ▸ hx)⟩

@[simp] theorem get_empty (k : κ) : (empty : OrdMap κ α).get k = none := rfl

theorem get_set (o : OrdMap κ α) (k k' : κ) (a : α) :
    (o.set k a).get k' = if k' = k then some a else o.get k' :=
  find_put k k' a o.entries

theorem keys_set (o : OrdMap κ α) (k : κ) (a : α) :
    (o.set k a).keys = if k ∈ o.keys then o.keys else o.keys ++ [k] :=
  keys_put k a o.entries

theorem put_of_notMem {k : κ} (a : α) {l : List (κ × α)} (h : k ∉ l.map Prod.fst) :
    put k a l = l ++ [(k, a)] := by
  induction l with
  | nil => rfl
  | cons p l ih =>
    simp only [List.map_cons, List.mem_cons, not_or] at h
    unfold put
    rw [if_neg (Ne.symm h.1), ih h.2, List.cons_append]

/-- New keys are added in order. -/
theorem entries_foldl_set {ι : Type} (f : ι → κ × α) (l : List ι) (o : OrdMap κ α)
    (h : (o.keys ++ l.map fun i => (f i).1).Nodup) :
    (l.foldl (fun o i => o.set (f i).1 (f i).2) o).entries = o.entries ++ l.map f := by
  induction l generalizing o with
  | nil => simp
  | cons i l ih =>
    have hnew : (f i).1 ∉ o.keys := by
      intro hm
      exact (List.nodup_append.mp h).2.2 _ hm _ List.mem_cons_self rfl
    have hset : (o.set (f i).1 (f i).2).entries = o.entries ++ [f i] := put_of_notMem _ hnew
    have hkeys : (o.set (f i).1 (f i).2).keys = o.keys ++ [(f i).1] := by
      rw [keys_set, if_neg hnew]
    rw [List.foldl_cons, ih, hset, List.append_assoc, List.map_cons, List.singleton_append]
    rw [hkeys, List.append_assoc]
    exact h

theorem mem_entries {o : OrdMap κ α} {k : κ} {a : α} : (k, a) ∈ o.entries ↔ o.get k = some a :=
  (find_eq_some o.nodup).symm

theorem mem_keys {o : OrdMap κ α} {k : κ} : k ∈ o.keys ↔ ∃ a, o.get k = some a := by
  unfold keys
  simp only [List.mem_map, Prod.exists, exists_and_right, exists_eq_right, mem_entries]

/-- Objects with the same values have the same entries, in some order. -/
theorem entries_perm {o o' : OrdMap κ α} (h : ∀ k, o.get k = o'.get k) :
    o.entries.Perm o'.entries := by
  have hdistinct : ∀ o : OrdMap κ α, o.entries.Nodup := fun o => List.Nodup.of_map _ o.nodup
  refine (List.perm_ext_iff_of_nodup (hdistinct o) (hdistinct o')).mpr fun ⟨k, a⟩ => ?_
  rw [mem_entries, mem_entries, h k]

/-! ## Sums into new keys -/

section Tally

variable [AddCommMonoid α] (key : β → κ) (w : β → α)

/-- Adds the weight of an item at its key. -/
def add (o : OrdMap κ α) (b : β) : OrdMap κ α := o.set (key b) ((o.get (key b)).getD 0 + w b)

def tally (l : List β) : OrdMap κ α := l.foldl (add key w) empty

/-- The weights under a key. -/
def under (k : κ) (l : List β) : List α := (l.filter fun b => key b = k).map w

theorem get_foldl_add (o : OrdMap κ α) (l : List β) (k : κ) :
    (l.foldl (add key w) o).get k =
      if ∃ b ∈ l, key b = k then some ((o.get k).getD 0 + (under key w k l).sum) else o.get k := by
  induction l generalizing o with
  | nil => simp
  | cons b l ih =>
    rw [List.foldl_cons, ih]
    unfold add under
    rw [get_set]
    by_cases hb : key b = k
    · subst hb
      by_cases hl : ∃ b' ∈ l, key b' = key b
      · simp [hl, add_assoc]
      · have hnone : l.filter (fun b' => decide (key b' = key b)) = [] := by
          refine List.filter_eq_nil_iff.mpr fun b' hb' he => hl ⟨b', hb', by simpa using he⟩
        simp [hl, hnone]
    · simp [hb, Ne.symm hb]

/-- A key of the list has the sum of its weights. -/
theorem get_tally (l : List β) (k : κ) :
    (tally key w l).get k = if ∃ b ∈ l, key b = k then some (under key w k l).sum else none := by
  unfold tally
  rw [get_foldl_add]
  simp

theorem mem_keys_tally {l : List β} {k : κ} :
    k ∈ (tally key w l).keys ↔ ∃ b ∈ l, key b = k := by
  rw [mem_keys, get_tally]
  split <;> simp_all

theorem sum_put (k : κ) (x : α) (l : List (κ × α)) :
    ((put k ((find k l).getD 0 + x) l).map Prod.snd).sum = (l.map Prod.snd).sum + x := by
  induction l with
  | nil => simp [put, find]
  | cons p l ih =>
    unfold put find
    by_cases h : p.1 = k
    · simp [h, add_right_comm]
    · simp only [h, if_false, List.map_cons, List.sum_cons, ih, add_assoc]

theorem sum_foldl_add (o : OrdMap κ α) (l : List β) :
    (l.foldl (add key w) o).values.sum = o.values.sum + (l.map w).sum := by
  induction l generalizing o with
  | nil => simp
  | cons b l ih =>
    have hset : (add key w o b).values.sum = o.values.sum + w b := sum_put (key b) (w b) o.entries
    rw [List.foldl_cons, ih, hset, List.map_cons, List.sum_cons, add_assoc]

/-- **Nothing is lost.** -/
theorem sum_tally (l : List β) : (tally key w l).values.sum = (l.map w).sum := by
  unfold tally
  rw [sum_foldl_add]
  exact zero_add _

/-- The order of the list only shows in the order of the keys. -/
theorem tally_perm {l l' : List β} (h : l.Perm l') :
    (tally key w l).entries.Perm (tally key w l').entries := by
  refine entries_perm fun k => ?_
  have hmem : (∃ b ∈ l, key b = k) ↔ ∃ b ∈ l', key b = k := by
    simp only [h.mem_iff]
  have hsum : (under key w k l).sum = (under key w k l').sum := ((h.filter _).map w).sum_eq
  simp only [get_tally, hmem, hsum]

end Tally

/-! ## Sums into given keys -/

section Accrue

/-- Updates the value of a key, if it is there. -/
def modify (o : OrdMap κ α) (k : κ) (f : α → α) : OrdMap κ α where
  entries := o.entries.map fun p => if p.1 = k then (p.1, f p.2) else p
  nodup := by
    have hfst : (Prod.fst ∘ fun p : κ × α => if p.1 = k then (p.1, f p.2) else p) = Prod.fst := by
      funext p
      dsimp only [Function.comp_apply]
      split <;> rfl
    rw [List.map_map, hfst]
    exact o.nodup

variable (key : β → κ) (upd : α → β → α)

def accrue (o : OrdMap κ α) (l : List β) : OrdMap κ α :=
  l.foldl (fun o b => o.modify (key b) (upd · b)) o

/-- Every entry takes the items of its key, in order. -/
theorem entries_accrue (o : OrdMap κ α) (l : List β) :
    (accrue key upd o l).entries =
      o.entries.map fun p => (p.1, (l.filter fun b => key b = p.1).foldl upd p.2) := by
  unfold accrue
  induction l generalizing o with
  | nil => simp
  | cons b l ih =>
    rw [List.foldl_cons, ih]
    unfold modify
    rw [List.map_map]
    refine List.map_congr_left fun p _ => ?_
    by_cases h : p.1 = key b
    · simp [h]
    · simp [h, Ne.symm h]

end Accrue

end OrdMap

/-! ## What a sum counts -/

theorem sum_indicator {β R : Type} [DecidableEq β] [AddMonoidWithOne R] (b : β) (l : List β) :
    (l.map fun x => if x = b then (1 : R) else 0).sum = (l.count b : R) := by
  induction l with
  | nil => simp
  | cons x l ih =>
    rw [List.map_cons, List.sum_cons, ih, List.count_cons]
    by_cases h : x = b
    · rw [if_pos h, if_pos (by simpa using h), add_comm]
      push_cast
      rfl
    · rw [if_neg h, if_neg (by simpa using h), zero_add, add_zero]

/-- **What a sum counts.** The weights of single items tell two filters apart. -/
theorem sums_agree_iff {β R : Type} [DecidableEq β] [AddMonoidWithOne R] [CharZero R]
    {p q : β → Bool} {l : List β} :
    (∀ w : β → R, ((l.filter p).map w).sum = ((l.filter q).map w).sum) ↔ ∀ b ∈ l, p b = q b := by
  constructor
  · intro h b hb
    have hcount := h fun x => if x = b then 1 else 0
    rw [sum_indicator, sum_indicator, Nat.cast_inj] at hcount
    have hpos : 0 < l.count b := List.count_pos_iff.mpr hb
    -- a filter that drops `b` counts none of it
    have hdrop : ∀ r : β → Bool, r b = false → (l.filter r).count b = 0 := fun r hr =>
      List.count_eq_zero_of_not_mem fun hm => by simp [hr] at hm
    cases hp : p b <;> cases hq : q b
    · rfl
    · rw [List.count_filter hq, hdrop p hp] at hcount
      omega
    · rw [List.count_filter hp, hdrop q hq] at hcount
      omega
    · rfl
  · intro h w
    rw [List.filter_congr h]

end ExpenseTracker.Core
