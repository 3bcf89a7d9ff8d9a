import ExpenseTracker.Core.Bytes
import ExpenseTracker.Core.JsNumber
import Mathlib.Algebra.Order.BigOperators.Group.List

/-!
# Sums of doubles

Doubles are added one after the other, and every sum is rounded. What is added
stands for an exact amount, and so does the sum.

* `sum_near`: how far a sum is from that of the exact amounts.
* `toFixed_near`: a number near `k` units of the last digit shown shows as `k`.
-/
namespace ExpenseTracker.Core

/-- The relative error, above the smallest numbers. -/
theorem abs_nearest_sub_le_mul {q : ℚ} (h : |q| ≤ maxDouble) (hu : -1074 < ulpExp q) :
    |nearest q - q| ≤ |q| / 2 ^ 53 := by
  rcases eq_or_ne q 0 with rfl | hq
  · have hzero : nearest 0 = 0 := if_pos rfl
    simp [hzero]
  have hbits := zpow_ulpExp_le hq hu
  rw [zpow_add₀ (by norm_num)] at hbits
  have herr := abs_nearest_sub_le h
  rw [le_div_iff₀ (by positivity)]
  norm_num at hbits ⊢
  linarith

namespace Double

/-- The grid of all doubles. -/
theorem grid_least (x : Double) : ∃ m : ℤ, x.val = m * 2 ^ (-1074 : ℤ) := by
  obtain ⟨m, hm, _⟩ := x.grid
  have hle : -1074 ≤ ulpExp x.val := le_max_right _ _
  obtain ⟨t, ht⟩ : ∃ t : ℕ, ulpExp x.val = t + -1074 := ⟨(ulpExp x.val + 1074).toNat, by omega⟩
  refine ⟨m * 2 ^ t, ?_⟩
  rw [ht, zpow_add₀ (by norm_num), zpow_natCast] at hm
  push_cast
  rw [hm]
  ring

/-- Sums have no underflow. -/
theorem abs_nearest_add_sub_le {x y : Double} (h : |x.val + y.val| ≤ maxDouble) :
    |nearest (x.val + y.val) - (x.val + y.val)| ≤ |x.val + y.val| / 2 ^ 53 := by
  have hle : -1074 ≤ ulpExp (x.val + y.val) := le_max_right _ _
  rcases hle.lt_or_eq with hlt | heq
  · exact abs_nearest_sub_le_mul h hlt
  · obtain ⟨m, hm⟩ := x.grid_least
    obtain ⟨n, hn⟩ := y.grid_least
    have hsum : x.val + y.val = ((m + n : ℤ) : ℚ) * 2 ^ (-1074 : ℤ) := by
      rw [hm, hn]
      push_cast
      ring
    have hlt := abs_lt_zpow_ulpExp (x.val + y.val)
    have hleast : (0 : ℚ) < 2 ^ (-1074 : ℤ) := zpow_pos (by norm_num) _
    rw [← heq, hsum, abs_mul, abs_of_pos hleast, zpow_add₀ (by norm_num), mul_comm] at hlt
    have hbits : |m + n| ≤ 2 ^ 53 := by
      exact_mod_cast (lt_of_mul_lt_mul_left hlt hleast.le).le
    have hexact := nearest_grid hbits (le_refl (-1074)) (hsum ▸ h)
    rw [← hsum] at hexact
    rw [hexact, sub_self, abs_zero]
    positivity

end Double

namespace JsNumber

/-- `-x` -/
def neg : JsNumber → JsNumber
  | .nan => .nan
  | .inf neg => .inf !neg
  | .fin x => .fin x.neg

/-- `x + y` -/
def add : JsNumber → JsNumber → JsNumber
  | .fin x, .fin y => ofRat (x.val + y.val)
  | .inf neg, .fin _ => .inf neg
  | .fin _, .inf neg => .inf neg
  | .inf neg, .inf neg' => if neg = neg' then .inf neg else .nan
  | _, _ => .nan

/-- `x - y` -/
def sub (x y : JsNumber) : JsNumber := x.add y.neg

/-- `x > y` -/
def gt : JsNumber → JsNumber → Bool
  | .fin x, .fin y => decide (y.val < x.val)
  | .inf neg, .fin _ => !neg
  | .fin _, .inf neg => neg
  | .inf neg, .inf neg' => !neg && neg'
  | _, _ => false

theorem ofRat_fin {q : ℚ} (h : 2 * |q| + 1 ≤ maxDouble) : ofRat q = .fin (Double.ofRat q) := by
  refine if_neg (not_lt.mpr ?_)
  have herr := abs_rounded_sub_le q
  have htri := abs_sub_abs_le_abs_sub (rounded q) q
  have habs := abs_nonneg q
  have hulp : (2 : ℚ) ^ ulpExp q ≤ |q| + 1 := by
    by_cases h0 : ulpExp q ≤ 0
    · have hsmall : (2 : ℚ) ^ ulpExp q ≤ 2 ^ (0 : ℤ) := zpow_le_zpow_right₀ (by norm_num) h0
      rw [zpow_zero] at hsmall
      linarith
    · have hq : q ≠ 0 := by
        rintro rfl
        rw [ulpExp, abs_zero, Int.log_zero_right] at h0
        omega
      have hbits := zpow_ulpExp_le hq (by omega)
      have hpow : (2 : ℚ) ^ ulpExp q ≤ 2 ^ (ulpExp q + 52) :=
        zpow_le_zpow_right₀ (by norm_num) (by omega)
      linarith
  linarith

/-! ## Numbers near an exact one -/

/-- A number within `e` of `q`. -/
def Near (x : JsNumber) (q e : ℚ) : Prop := ∃ s : Double, x = .fin s ∧ |s.val - q| ≤ e

namespace Near

variable {x y : JsNumber} {p q d e : ℚ}

theorem mono (h : Near x q d) (hle : d ≤ e) : Near x q e := by
  obtain ⟨s, hs, hd⟩ := h
  exact ⟨s, hs, hd.trans hle⟩

theorem neg (h : Near x q e) : Near x.neg (-q) e := by
  obtain ⟨s, rfl, he⟩ := h
  refine ⟨s.neg, rfl, ?_⟩
  show |-s.val - -q| ≤ e
  rwa [neg_sub_neg, abs_sub_comm]

theorem add (hx : Near x p d) (hy : Near y q e) (hmax : 2 * (|p + q| + (d + e)) + 1 ≤ maxDouble) :
    Near (x.add y) (p + q) (d + e + (|p + q| + (d + e)) / 2 ^ 53) := by
  obtain ⟨s, rfl, hs⟩ := hx
  obtain ⟨t, rfl, ht⟩ := hy
  have hsum : |s.val + t.val - (p + q)| ≤ d + e := by
    have he : s.val + t.val - (p + q) = (s.val - p) + (t.val - q) := by ring
    rw [he]
    exact (abs_add_le _ _).trans (add_le_add hs ht)
  have habs : |s.val + t.val| ≤ |p + q| + (d + e) := by
    have htri := abs_sub_abs_le_abs_sub (s.val + t.val) (p + q)
    linarith
  have hfin : 2 * |s.val + t.val| + 1 ≤ maxDouble := by linarith
  refine ⟨_, ofRat_fin hfin, ?_⟩
  have h0 := abs_nonneg (s.val + t.val)
  have hround := Double.abs_nearest_add_sub_le (x := s) (y := t) (by linarith)
  have hdiv : |s.val + t.val| / 2 ^ 53 ≤ (|p + q| + (d + e)) / 2 ^ 53 :=
    div_le_div_of_nonneg_right habs (by positivity)
  have htri := abs_sub_le (nearest (s.val + t.val)) (s.val + t.val) (p + q)
  show |nearest (s.val + t.val) - (p + q)| ≤ _
  linarith

theorem sub (hx : Near x p d) (hy : Near y q e) (hmax : 2 * (|p - q| + (d + e)) + 1 ≤ maxDouble) :
    Near (x.sub y) (p - q) (d + e + (|p - q| + (d + e)) / 2 ^ 53) := by
  rw [sub_eq_add_neg] at hmax ⊢
  exact hx.add hy.neg hmax

/-- Two numbers that stay clear of each other compare as the exact ones. -/
theorem gt (hx : Near x p d) (hy : Near y q e) (h : d + e < |p - q|) :
    x.gt y = decide (q < p) := by
  obtain ⟨s, rfl, hs⟩ := hx
  obtain ⟨t, rfl, ht⟩ := hy
  have hs' := abs_le.mp hs
  have ht' := abs_le.mp ht
  refine decide_eq_decide.mpr ?_
  rcases lt_abs.mp h with h | h
  · exact iff_of_true (by linarith) (by linarith [abs_nonneg (s.val - p), abs_nonneg (t.val - q)])
  · exact iff_of_false (by linarith)
      (by linarith [abs_nonneg (s.val - p), abs_nonneg (t.val - q)])

end Near

/-! ## Sums -/

section Sum

variable {α : Type} (x : α → Double)

/-- `reduce((sum, a) => sum + x(a), 0)` -/
def sum (l : List α) : JsNumber := l.foldl (fun sum a => sum.add (.fin (x a))) (.fin .zero)

theorem sum_snoc (l : List α) (a : α) : sum x (l ++ [a]) = (sum x l).add (.fin (x a)) := by
  rw [sum, List.foldl_append]
  rfl

/-- **A sum of doubles** that stand for the amounts `q`. -/
theorem sum_near {q : α → ℚ} {S : ℚ} (hmax : 16 * S + 1 ≤ maxDouble) {l : List α}
    (hx : ∀ a ∈ l, |(x a).val - q a| ≤ |q a| / 2 ^ 53) (hS : (l.map fun a => |q a|).sum ≤ S)
    (hn : l.length ≤ 2 ^ 51) : Near (sum x l) (l.map q).sum (l.length * (S / 2 ^ 51)) := by
  induction l using List.reverseRecOn with
  | nil => exact ⟨.zero, rfl, by simp [Double.zero]⟩
  | append_singleton l a ih =>
    rw [List.map_append, List.sum_append, List.map_singleton, List.sum_singleton] at hS
    rw [List.length_append, List.length_singleton] at hn
    have hla : 0 ≤ (l.map fun a => |q a|).sum :=
      List.sum_nonneg fun y hy => by
        obtain ⟨b, _, rfl⟩ := List.mem_map.mp hy
        exact abs_nonneg _
    have hqa := abs_nonneg (q a)
    have hS0 : 0 ≤ S := by linarith
    have hinit := ih (fun b hb => hx b (List.mem_append_left _ hb)) (by linarith) (by omega)
    have hlast : Near (.fin (x a)) (q a) (|q a| / 2 ^ 53) :=
      ⟨x a, rfl, hx a (List.mem_append_right _ (List.mem_singleton_self a))⟩
    have hexact : |(l.map q).sum + q a| ≤ S := by
      have hle : |(l.map q).sum| ≤ (l.map fun a => |q a|).sum := by
        have habs := List.le_sum_of_subadditive (fun y : ℚ => |y|) abs_zero.le abs_add_le (l.map q)
        rwa [List.map_map] at habs
      exact (abs_add_le _ _).trans (by linarith)
    -- what the prefix is off by is at most `S`
    have hcount : (l.length : ℚ) * (S / 2 ^ 51) ≤ S := by
      have hlen : (l.length : ℚ) ≤ 2 ^ 51 := by exact_mod_cast (by omega : l.length ≤ 2 ^ 51)
      calc (l.length : ℚ) * (S / 2 ^ 51) ≤ 2 ^ 51 * (S / 2 ^ 51) :=
            mul_le_mul_of_nonneg_right hlen (by positivity)
        _ = S := by field_simp
    rw [sum_snoc, List.map_append, List.sum_append, List.map_singleton, List.sum_singleton,
      List.length_append, List.length_singleton]
    refine (hinit.add hlast ?_).mono ?_
    · norm_num at hcount ⊢
      linarith
    · push_cast
      norm_num at hcount ⊢
      linarith

end Sum

/-! ## Fixed notation -/

/-- `n` units of the last of `f` digits behind the point. -/
def fixedText (f n : ℕ) : Bytes :=
  if f = 0 then natText n
  else
    let m := List.replicate (f + 1 - (natText n).length) 48 ++ natText n
    m.take (m.length - f) ++ 46 :: m.drop (m.length - f)

/-- `x.toFixed(f)`; from 10^21 on it is `String(x)`, and so it is for no finite number. -/
def toFixed (string : JsNumber → Bytes) (f : ℕ) : JsNumber → Bytes
  | .fin x =>
    if 10 ^ 21 ≤ |x.val| then string (.fin x)
    else (if x.val < 0 then [45] else []) ++ fixedText f ⌊|x.val| * 10 ^ f + 1 / 2⌋.toNat
  | x => string x

example : fixedText 2 1250 = ascii "12.50" ∧ fixedText 2 5 = ascii "0.05" := by decide

/-- `k` units of the last of `f` digits. -/
def unitsText (f : ℕ) (k : ℤ) : Bytes := (if k < 0 then [45] else []) ++ fixedText f k.natAbs

section Fixed

variable {string : JsNumber → Bytes} {f : ℕ} {k : ℤ} {s : Double}

/-- In units of the last digit. -/
theorem units_near (h : |s.val - k / 10 ^ f| < 1 / (2 * 10 ^ f)) : |s.val * 10 ^ f - k| < 1 / 2 := by
  have hunit : (0 : ℚ) < 10 ^ f := by positivity
  have he : s.val * 10 ^ f - k = (s.val - k / 10 ^ f) * 10 ^ f := by field_simp
  rw [he, abs_mul, abs_of_pos hunit]
  rw [lt_div_iff₀ (by positivity)] at h
  linarith

theorem toFixed_digits (hk : |(k : ℚ) / 10 ^ f| + 1 < 10 ^ 21)
    (h : |s.val - k / 10 ^ f| < 1 / (2 * 10 ^ f)) :
    toFixed string f (.fin s) = (if s.val < 0 then [45] else []) ++ fixedText f k.natAbs := by
  have hunit : (0 : ℚ) < 10 ^ f := by positivity
  have hone : (1 : ℚ) ≤ 10 ^ f := one_le_pow₀ (by norm_num)
  have habs := (abs_abs_sub_abs_le_abs_sub (s.val * 10 ^ f) (k : ℚ)).trans_lt (units_near h)
  rw [abs_mul, abs_of_pos hunit] at habs
  obtain ⟨hlo, hhi⟩ := abs_lt.mp habs
  have hsmall : ¬ 10 ^ 21 ≤ |s.val| := by
    have hdist : 1 / (2 * 10 ^ f) < (1 : ℚ) := by
      rw [div_lt_one (by positivity)]
      linarith
    have htri := abs_sub_abs_le_abs_sub s.val (k / 10 ^ f)
    linarith
  have hfloor : ⌊|s.val| * 10 ^ f + 1 / 2⌋ = |k| := by
    rw [Int.floor_eq_iff]
    push_cast
    constructor <;> linarith
  rw [toFixed, if_neg hsmall, hfloor, Int.abs_eq_natAbs, Int.toNat_natCast]

/-- **A number near `k` units shows as them**; a zero may have a sign. -/
theorem toFixed_near {x : JsNumber} {e : ℚ} (hk : |(k : ℚ) / 10 ^ f| + 1 < 10 ^ 21)
    (he : e < 1 / (2 * 10 ^ f)) (h : Near x (k / 10 ^ f) e) :
    toFixed string f x = unitsText f k ∨ k = 0 ∧ toFixed string f x = 45 :: unitsText f 0 := by
  obtain ⟨s, rfl, hs⟩ := h
  have hlt := lt_of_le_of_lt hs he
  have hunit : (0 : ℚ) < 10 ^ f := by positivity
  rw [toFixed_digits hk hlt, unitsText]
  rcases lt_trichotomy k 0 with hneg | rfl | hpos
  · have hk1 : (k : ℚ) ≤ -1 := by exact_mod_cast (by omega : k ≤ -1)
    have hs0 : s.val < 0 := by
      by_contra h0
      have := mul_nonneg (not_lt.mp h0) hunit.le
      linarith [(abs_lt.mp (units_near hlt)).2]
    exact Or.inl (by rw [if_pos hs0, if_pos hneg])
  · by_cases hneg : s.val < 0
    · exact Or.inr ⟨rfl, by rw [if_pos hneg]; rfl⟩
    · exact Or.inl (by rw [if_neg hneg]; rfl)
  · have hk1 : (1 : ℚ) ≤ k := by exact_mod_cast (by omega : 1 ≤ k)
    have hs0 : ¬ s.val < 0 := by
      intro h0
      have := mul_neg_of_neg_of_pos h0 hunit
      linarith [(abs_lt.mp (units_near hlt)).1]
    exact Or.inl (by rw [if_neg hs0, if_neg (by omega)])

theorem toFixed_near_nonneg {x : JsNumber} {e : ℚ} (hk : |(k : ℚ) / 10 ^ f| + 1 < 10 ^ 21)
    (he : e < 1 / (2 * 10 ^ f)) (h : Near x (k / 10 ^ f) e) (h0 : ∀ s, x = .fin s → 0 ≤ s.val) :
    toFixed string f x = unitsText f k := by
  have hcases : toFixed string f x = unitsText f k ∨ k = 0 ∧ _ := toFixed_near hk he h
  rcases hcases with h' | ⟨rfl, _⟩
  · exact h'
  · obtain ⟨s, rfl, hs⟩ := h
    rw [toFixed_digits hk (lt_of_le_of_lt hs he), if_neg (not_lt.mpr (h0 s rfl))]
    rfl

end Fixed

end JsNumber

end ExpenseTracker.Core
