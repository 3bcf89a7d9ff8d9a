import Mathlib.Tactic.Ring
import Mathlib.Tactic.FieldSimp
import Mathlib.Tactic.NormNum
import Mathlib.Algebra.Order.Field.Power
import Mathlib.Data.List.Induction
import ExpenseTracker.Core.JsonSyntax

/-!
# Decimals and how they are laid out

A positive decimal is a run of digits and the place of its point. `printf`
and the conversions of JavaScript write it in one of four ways: as an
integer, with the point among the digits, with zeros behind the point, or
with an exponent. Each of them denotes the decimal.

* `integer_value`, `fixed_value`, `small_value`, `scientific_value`
* `natText_head`: no decimal starts with a zero.
-/
namespace ExpenseTracker.Core

open ExpenseTracker.Core.JsonText ExpenseTracker.Core.JsonSyntax

/-! ## Digits -/

theorem readNat_snoc (a : Bytes) (b : UInt8) : readNat (a ++ [b]) = 10 * readNat a + (b.toNat - 48) := by
  simp [readNat]

theorem readNat_append (a b : Bytes) : readNat (a ++ b) = readNat a * 10 ^ b.length + readNat b := by
  induction b using List.reverseRecOn with
  | nil => simp [readNat]
  | append_singleton b c ih =>
    rw [← List.append_assoc, readNat_snoc, readNat_snoc, ih, List.length_append, List.length_singleton,
      pow_succ]
    ring

theorem readNat_zeros (n : ℕ) : readNat (List.replicate n 48) = 0 := by
  induction n with
  | zero => rfl
  | succ n ih =>
    rw [List.replicate_succ', readNat_snoc, ih]
    rfl

theorem natText_digits (s : ℕ) : ∀ b ∈ natText s, isDigit b = true := fun _ hb => natText_digit hb

theorem zeros_digits (n : ℕ) : ∀ b ∈ List.replicate n (48 : UInt8), isDigit b = true := by
  intro b hb
  rw [List.eq_of_mem_replicate hb]
  rfl

theorem natText_head {s : ℕ} (hs : 0 < s) : (natText s).head? ≠ some 48 := by
  rcases head_natText s with h | h
  · exact h
  · intro h48
    obtain ⟨b, hb⟩ := List.length_eq_one_iff.mp h
    rw [hb] at h48
    obtain rfl : b = 48 := Option.some.inj h48
    have hread := readNat_natText s
    rw [hb] at hread
    exact absurd hread (by simp [readNat]; omega)

theorem length_natText_le_iff {s k : ℕ} (hk : 0 < k) : (natText s).length ≤ k ↔ s < 10 ^ k := by
  rw [natText, List.length_map]
  exact Nat.length_toDigits_le_iff (by decide) hk

theorem length_natText {s k : ℕ} (hlo : 10 ^ k ≤ s) (hhi : s < 10 ^ (k + 1)) :
    (natText s).length = k + 1 := by
  have hle := (length_natText_le_iff (by omega)).mpr hhi
  rcases Nat.lt_or_ge k (natText s).length with h | h
  · omega
  · rcases Nat.eq_zero_or_pos k with rfl | hk
    · have := List.length_pos_iff.mpr (natText_ne_nil s)
      omega
    · have := (length_natText_le_iff hk).mp h
      omega

theorem natText_bounds {s : ℕ} (hs : 0 < s) :
    ∃ k, (natText s).length = k + 1 ∧ 10 ^ k ≤ s ∧ s < 10 ^ (k + 1) := by
  have hpos := List.length_pos_iff.mpr (natText_ne_nil s)
  obtain ⟨k, hk⟩ : ∃ k, (natText s).length = k + 1 := ⟨(natText s).length - 1, by omega⟩
  refine ⟨k, hk, ?_, (length_natText_le_iff (by omega)).mp hk.le⟩
  by_contra hlt
  rcases Nat.eq_zero_or_pos k with rfl | hk0
  · exact hlt hs
  · have := (length_natText_le_iff hk0).mpr (Nat.lt_of_not_le hlt)
    omega

/-- Zeros behind a number. -/
theorem length_natText_mul {s : ℕ} (hs : 0 < s) (t : ℕ) :
    (natText (s * 10 ^ t)).length = (natText s).length + t := by
  obtain ⟨k, hk, hlo, hhi⟩ := natText_bounds hs
  have hlo' : 10 ^ (k + t) ≤ s * 10 ^ t := by
    rw [pow_add]
    exact Nat.mul_le_mul_right _ hlo
  have hhi' : s * 10 ^ t < 10 ^ (k + t + 1) := by
    rw [show k + t + 1 = k + 1 + t by omega, pow_add]
    exact Nat.mul_lt_mul_of_pos_right hhi (by positivity)
  rw [length_natText hlo' hhi', hk]
  omega

/-- Digits in front of which stands no zero. -/
def Leading (ds : Bytes) : Prop := (∀ b ∈ ds, isDigit b = true) ∧ ds ≠ [] ∧ ds.head? ≠ some 48

theorem leading_natText {s : ℕ} (hs : 0 < s) : Leading (natText s) :=
  ⟨natText_digits s, natText_ne_nil s, natText_head hs⟩

theorem Leading.noLeading {ds : Bytes} (h : Leading ds) : ds.head? = some 48 → ds = [48] :=
  fun h48 => absurd h48 h.2.2

theorem Leading.append {ds : Bytes} (h : Leading ds) {es : Bytes} (he : ∀ b ∈ es, isDigit b = true) :
    Leading (ds ++ es) := by
  obtain ⟨hd, hne, h48⟩ := h
  refine ⟨?_, by simp [hne], ?_⟩
  · intro b hb
    rcases List.mem_append.mp hb with hb | hb
    · exact hd b hb
    · exact he b hb
  · cases ds with
    | nil => exact absurd rfl hne
    | cons c ds => exact h48

theorem Leading.take {ds : Bytes} (h : Leading ds) {n : ℕ} (hn : 0 < n) : Leading (ds.take n) := by
  obtain ⟨hd, hne, h48⟩ := h
  obtain ⟨n, rfl⟩ : ∃ m, n = m + 1 := ⟨n - 1, by omega⟩
  cases ds with
  | nil => exact absurd rfl hne
  | cons c ds => exact ⟨fun b hb => hd b (List.mem_of_mem_take hb), by simp, h48⟩

/-- The last digit. -/
theorem getLast_digits {ds : Bytes} (hd : ∀ b ∈ ds, isDigit b = true) (hne : ds ≠ []) :
    ds.getLast hne = 48 ↔ readNat ds % 10 = 0 := by
  have hsplit := List.dropLast_append_getLast hne
  have hb : 48 ≤ (ds.getLast hne).toNat ∧ (ds.getLast hne).toNat ≤ 57 := by
    have hlast := hd _ (List.getLast_mem hne)
    rwa [isDigit, decide_eq_true_eq, UInt8.le_iff_toNat_le, UInt8.le_iff_toNat_le] at hlast
  have hread := readNat_snoc ds.dropLast (ds.getLast hne)
  rw [hsplit] at hread
  have heq : ds.getLast hne = 48 ↔ (ds.getLast hne).toNat = 48 := UInt8.toNat_inj.symm
  rw [heq]
  omega

/-! ## Layouts -/

/-- The digits of `s`, the point behind the first `point` of them. -/
structure Decimal where
  s : ℕ
  point : ℤ
  pos : 0 < s

namespace Decimal

variable (d : Decimal)

def digits : Bytes := natText d.s

def value : ℚ := d.s * 10 ^ (d.point - d.digits.length)

theorem leading : Leading d.digits := leading_natText d.pos

theorem readNat_digits : readNat d.digits = d.s := readNat_natText d.s

theorem length_pos : 0 < d.digits.length := List.length_pos_iff.mpr d.leading.2.1

theorem value_bounds : (10 : ℚ) ^ (d.point - 1) ≤ d.value ∧ d.value < 10 ^ d.point := by
  obtain ⟨k, hk, hlo, hhi⟩ := natText_bounds d.pos
  have hlen : d.digits.length = k + 1 := hk
  have hpow : (0 : ℚ) < 10 ^ (d.point - d.digits.length) := by positivity
  unfold value
  constructor
  · calc (10 : ℚ) ^ (d.point - 1) = 10 ^ k * 10 ^ (d.point - d.digits.length) := by
          rw [← zpow_natCast, ← zpow_add₀ (by norm_num), hlen]
          congr 1
          push_cast
          ring
      _ ≤ d.s * 10 ^ (d.point - d.digits.length) :=
          mul_le_mul_of_nonneg_right (by exact_mod_cast hlo) hpow.le
  · calc d.s * 10 ^ (d.point - d.digits.length) < (10 : ℚ) ^ (k + 1) * 10 ^ (d.point - d.digits.length) :=
          mul_lt_mul_of_pos_right (by exact_mod_cast hhi) hpow
      _ = 10 ^ d.point := by
          rw [← zpow_natCast, ← zpow_add₀ (by norm_num), hlen]
          congr 1
          push_cast
          ring

theorem no_fraction : ∀ ds ∈ (none : Option Bytes), ∀ b ∈ ds, isDigit b = true := by simp

theorem zero_digits : ∀ b ∈ ([48] : Bytes), isDigit b = true := List.forall_mem_singleton.mpr rfl

theorem zero_ne_nil : ([48] : Bytes) ≠ [] := List.cons_ne_nil _ _

theorem zero_leading : ([48] : Bytes).head? = some 48 → ([48] : Bytes) = [48] := fun _ => rfl

theorem letter_e : (101 : UInt8) = 101 ∨ (101 : UInt8) = 69 := Or.inl rfl

/-- The digits, and zeros up to the point. -/
def integer (neg : Bool) : Numeral where
  neg := neg
  int := d.digits ++ List.replicate (d.point.toNat - d.digits.length) 48
  frac := none
  exp := none
  intDigits := (d.leading.append (zeros_digits _)).1
  intSome := (d.leading.append (zeros_digits _)).2.1
  noLeading := (d.leading.append (zeros_digits _)).noLeading
  fracDigits := no_fraction

/-- The point behind the first `n` digits. -/
def fixed (neg : Bool) (n : ℕ) (hn : 0 < n) : Numeral where
  neg := neg
  int := d.digits.take n
  frac := some (d.digits.drop n)
  exp := none
  intDigits := (d.leading.take hn).1
  intSome := (d.leading.take hn).2.1
  noLeading := (d.leading.take hn).noLeading
  fracDigits := by
    rintro _ ⟨⟩ b hb
    exact d.leading.1 b (List.mem_of_mem_drop hb)

/-- Zeros behind the point, and the digits. -/
def small (neg : Bool) : Numeral where
  neg := neg
  int := [48]
  frac := some (List.replicate (-d.point).toNat 48 ++ d.digits)
  exp := none
  intDigits := zero_digits
  intSome := zero_ne_nil
  noLeading := zero_leading
  fracDigits := by
    rintro _ ⟨⟩ b hb
    rcases List.mem_append.mp hb with hb | hb
    · exact zeros_digits _ b hb
    · exact d.leading.1 b hb

/-- One digit in front of the point, and the exponent. -/
def scientific (neg : Bool) (expDigits : Bytes) (hd : ∀ b ∈ expDigits, isDigit b = true) : Numeral where
  neg := neg
  int := d.digits.take 1
  frac := if d.digits.length = 1 then none else some (d.digits.drop 1)
  exp := some ⟨101, some (decide (d.point - 1 < 0)), expDigits, letter_e, hd, Or.inl (by simp)⟩
  intDigits := (d.leading.take (by decide)).1
  intSome := (d.leading.take (by decide)).2.1
  noLeading := (d.leading.take (by decide)).noLeading
  fracDigits := by
    intro ds hds b hb
    split at hds
    · cases hds
    · cases hds
      exact d.leading.1 b (List.mem_of_mem_drop hb)

/-- A numeral with a sign denotes the number without it, or its opposite. -/
def signed (neg : Bool) (q : ℚ) : ℚ := if neg then -q else q

theorem integer_value (neg : Bool) (h : (d.digits.length : ℤ) ≤ d.point) :
    (d.integer neg).value = signed neg d.value := by
  have hpow : d.point - d.digits.length = ((d.point.toNat - d.digits.length : ℕ) : ℤ) := by omega
  have hread : readNat (d.integer neg).int = d.s * 10 ^ (d.point.toNat - d.digits.length) := by
    show readNat (d.digits ++ List.replicate _ 48) = _
    rw [readNat_append, readNat_zeros, d.readNat_digits, List.length_replicate, Nat.add_zero]
  unfold Numeral.value
  rw [hread]
  unfold value signed
  rw [hpow, zpow_natCast]
  cases neg <;> simp [integer, Numeral.fracValue, Numeral.expValue]

theorem fixed_value (neg : Bool) (n : ℕ) (hn : 0 < n) (hp : d.point = n) (h : n < d.digits.length) :
    (d.fixed neg n hn).value = signed neg d.value := by
  have hlen : (d.digits.drop n).length = d.digits.length - n := List.length_drop
  have hread : readNat (d.digits.take n) * 10 ^ (d.digits.length - n) + readNat (d.digits.drop n) =
      d.s := by
    rw [← hlen, ← readNat_append, List.take_append_drop, d.readNat_digits]
  have hpow : d.point - d.digits.length = -((d.digits.length - n : ℕ) : ℤ) := by omega
  have hvalue : (readNat (d.digits.take n) : ℚ) +
      (readNat (d.digits.drop n) : ℚ) / 10 ^ (d.digits.length - n) = d.value := by
    unfold value
    rw [hpow, zpow_neg, zpow_natCast, ← hread]
    push_cast
    field_simp
  unfold Numeral.value Numeral.fracValue Numeral.expValue
  show (if neg then (-1 : ℚ) else 1) * (((readNat (d.digits.take n) : ℚ) +
    (readNat (d.digits.drop n) : ℚ) / 10 ^ (d.digits.drop n).length) * 10 ^ (0 : ℤ)) = _
  rw [hlen, hvalue]
  cases neg <;> simp [signed]

theorem small_value (neg : Bool) (hp : d.point ≤ 0) : (d.small neg).value = signed neg d.value := by
  have hread : readNat (List.replicate (-d.point).toNat 48 ++ d.digits) = d.s := by
    rw [readNat_append, readNat_zeros, Nat.zero_mul, Nat.zero_add, d.readNat_digits]
  have hlen : (List.replicate (-d.point).toNat (48 : UInt8) ++ d.digits).length =
      (-d.point).toNat + d.digits.length := by
    rw [List.length_append, List.length_replicate]
  have hpow : d.point - d.digits.length = -(((-d.point).toNat + d.digits.length : ℕ) : ℤ) := by omega
  unfold Numeral.value Numeral.fracValue Numeral.expValue
  show (if neg then (-1 : ℚ) else 1) * (((readNat [48] : ℚ) +
    (readNat (List.replicate (-d.point).toNat 48 ++ d.digits) : ℚ) /
      10 ^ (List.replicate (-d.point).toNat (48 : UInt8) ++ d.digits).length) * 10 ^ (0 : ℤ)) = _
  rw [hread, hlen]
  unfold value signed
  rw [hpow, zpow_neg, zpow_natCast]
  cases neg <;> simp [readNat, div_eq_mul_inv]

theorem scientific_value (neg : Bool) {expDigits : Bytes} (hd : ∀ b ∈ expDigits, isDigit b = true) :
    (d.scientific neg expDigits hd).value =
      signed neg (d.s * 10 ^ (1 - (d.digits.length : ℤ)) *
        10 ^ (if d.point - 1 < 0 then -(readNat expDigits : ℤ) else readNat expDigits)) := by
  have hpos := d.length_pos
  have hlen : (d.digits.drop 1).length = d.digits.length - 1 := List.length_drop
  have hread : readNat (d.digits.take 1) * 10 ^ (d.digits.length - 1) + readNat (d.digits.drop 1) =
      d.s := by
    rw [← hlen, ← readNat_append, List.take_append_drop, d.readNat_digits]
  have hpow : 1 - (d.digits.length : ℤ) = -((d.digits.length - 1 : ℕ) : ℤ) := by omega
  have hmant : (readNat (d.scientific neg expDigits hd).int : ℚ) +
      (d.scientific neg expDigits hd).fracValue = d.s * 10 ^ (1 - (d.digits.length : ℤ)) := by
    rw [hpow, zpow_neg, zpow_natCast, ← hread]
    show (readNat (d.digits.take 1) : ℚ) + (match (if d.digits.length = 1 then none
      else some (d.digits.drop 1)) with
        | none => 0
        | some ds => (readNat ds : ℚ) / 10 ^ ds.length) = _
    split
    · rename_i hnone
      split at hnone
      · rename_i h1
        have hnil : d.digits.drop 1 = [] := List.length_eq_zero_iff.mp (by rw [hlen, h1])
        rw [hnil, h1]
        simp [readNat]
      · cases hnone
    · rename_i ds hsome
      split at hsome
      · cases hsome
      · cases hsome
        rw [hlen]
        push_cast
        field_simp
  unfold Numeral.value
  rw [hmant]
  have hexp : (d.scientific neg expDigits hd).expValue =
      if d.point - 1 < 0 then -(readNat expDigits : ℤ) else readNat expDigits := by
    unfold Numeral.expValue scientific
    simp
  rw [hexp]
  show (if neg then (-1 : ℚ) else 1) * _ = _
  unfold signed
  cases neg with
  | true => rw [if_pos rfl, if_pos rfl, neg_one_mul]
  | false => rw [if_neg Bool.false_ne_true, if_neg Bool.false_ne_true, one_mul]

/-- The exponent as it is. -/
theorem scientific_value_of (neg : Bool) {expDigits : Bytes} (hd : ∀ b ∈ expDigits, isDigit b = true)
    (he : (readNat expDigits : ℤ) = |d.point - 1|) :
    (d.scientific neg expDigits hd).value = signed neg d.value := by
  rw [scientific_value, he]
  have hexp : (if d.point - 1 < 0 then -|d.point - 1| else |d.point - 1|) = d.point - 1 := by
    split
    · rw [abs_of_neg ‹_›]
      omega
    · rw [abs_of_nonneg (by omega)]
  rw [hexp, mul_assoc, ← zpow_add₀ (by norm_num), value]
  congr 3
  omega

end Decimal

end ExpenseTracker.Core
