import ExpenseTracker.Core.Decimal
import ExpenseTracker.Core.JsNumber

/-!
# Doubles as decimals

How the two runtimes write a double. JavaScript takes the shortest decimal
that reads back as the number; `printf("%.17g")` takes seventeen digits, and
these are enough to read it back.

* `nearest_of_near`: which decimals read as a given double.
* `Shown.integer`: an integer is written without a point by JavaScript.
* `Shown.reads`: the shortest decimal reads back.
* `decimal_reads`: the digits `%.17g` writes read back.
-/
namespace ExpenseTracker.Core

open ExpenseTracker.Core.JsonSyntax

/-! ## Decimals that read as a double -/

theorem roundEven_neg (q : ℚ) : roundEven (-q) = -roundEven q := by
  have h0 := Int.floor_le q
  have h1 := Int.lt_floor_add_one q
  rcases eq_or_lt_of_le h0 with h | h
  · rw [← h, ← Int.cast_neg, roundEven_intCast, roundEven_intCast]
  · have hfloor : ⌊-q⌋ = -⌊q⌋ - 1 := by
      rw [Int.floor_eq_iff]
      push_cast
      constructor <;> linarith
    unfold roundEven
    rw [hfloor]
    push_cast
    have hparity : (-⌊q⌋ - 1) % 2 = 0 ↔ ¬ ⌊q⌋ % 2 = 0 := by omega
    by_cases ha : q - ⌊q⌋ < 1 / 2
    · rw [if_neg (by linarith), if_pos (by linarith), if_pos ha]
      ring
    by_cases hb : 1 / 2 < q - ⌊q⌋
    · rw [if_pos (by linarith), if_neg ha, if_pos hb]
      ring
    · rw [if_neg (by linarith), if_neg (by linarith), if_neg ha, if_neg hb]
      by_cases hp : ⌊q⌋ % 2 = 0
      · rw [if_neg (fun h => hparity.mp h hp), if_pos hp]
        ring
      · rw [if_pos (hparity.mpr hp), if_neg hp]
        ring

theorem clamp_neg (q : ℚ) : clamp (-q) = -clamp q := by
  have hmax := maxDouble_pos
  unfold clamp
  rcases le_total q maxDouble with h1 | h1
  · rcases le_total (-maxDouble) q with h2 | h2
    · rw [min_eq_left h1, max_eq_right h2, min_eq_left (by linarith), max_eq_right (by linarith)]
    · rw [min_eq_left h1, max_eq_left h2, min_eq_right (by linarith), max_eq_right (by linarith),
        neg_neg]
  · have hlow : -q ≤ maxDouble := by linarith
    have hneg : -q ≤ -maxDouble := by linarith
    have hpos : -maxDouble ≤ maxDouble := by linarith
    rw [min_eq_left hlow, max_eq_left hneg, min_eq_right h1, max_eq_right hpos]

theorem nearest_neg (q : ℚ) : nearest (-q) = -nearest q := by
  unfold nearest
  by_cases h : q = 0
  · rw [if_pos (by rw [h, neg_zero]), if_pos h, neg_zero]
  · rw [if_neg (by simpa using h), if_neg h, ulpExp_neg, neg_div, roundEven_neg, Int.cast_neg, neg_mul,
      clamp_neg]

theorem nearest_of_near_pos {x : Double} {q : ℚ} (hx : 0 < x.val)
    (h : |q - x.val| < x.val / 2 ^ 54) : nearest q = x.val := by
  obtain ⟨m, hm, hlt⟩ := x.grid
  obtain ⟨e, he⟩ : ∃ e, e = ulpExp x.val := ⟨_, rfl⟩
  rw [← he] at hm
  have hu : (0 : ℚ) < 2 ^ e := by positivity
  have hm53 : (m : ℚ) ≤ 2 ^ 53 - 1 := by
    have := (abs_lt.mp hlt).2
    have hle : m ≤ 2 ^ 53 - 1 := by omega
    exact_mod_cast hle
  have hclamp : clamp x.val = x.val := clamp_of_le x.abs_val_le
  obtain ⟨hlow, hhigh⟩ := abs_lt.mp h
  have hq : 0 < q := by linarith
  have hhalf : x.val / 2 ^ 54 < 2 ^ e / 2 := by
    rw [hm, div_lt_div_iff₀ (by norm_num) (by norm_num)]
    nlinarith
  have hunfold : nearest q = clamp (roundEven (q / 2 ^ ulpExp q) * 2 ^ ulpExp q) := if_neg hq.ne'
  rcases lt_trichotomy (ulpExp q) e with hF | hF | hF
  · -- just below a power of two, on the finer grid
    have he1074 : -1074 < e := lt_of_le_of_lt (le_max_right _ _) hF
    have hbits := zpow_ulpExp_le hx.ne' (he ▸ he1074)
    rw [← he, abs_of_pos hx, zpow_add₀ (by norm_num)] at hbits
    have hqlt := abs_lt_zpow_ulpExp q
    rw [abs_of_pos hq] at hqlt
    have hqe : q < 2 ^ e * 2 ^ (52 : ℤ) := by
      rw [← zpow_add₀ (by norm_num)]
      exact hqlt.trans_le (zpow_le_zpow_right₀ (by norm_num) (by omega))
    have hm52 : m = 2 ^ 52 := by
      have h1 : (2 ^ 52 : ℚ) ≤ m := by
        have hle : 2 ^ e * (2 : ℚ) ^ (52 : ℤ) ≤ 2 ^ e * m := by rw [mul_comm (2 ^ e) (m : ℚ), ← hm]; exact hbits
        exact_mod_cast le_of_mul_le_mul_left hle hu
      have h2 : (m : ℚ) < 2 ^ 52 + 1 := by
        have hlt : 2 ^ e * (m : ℚ) < 2 ^ e * (2 ^ 52 + 1) := by
          have hpow : (2 : ℚ) ^ (52 : ℤ) = 2 ^ 52 := by norm_cast
          rw [hpow] at hqe
          rw [mul_comm (2 ^ e) (m : ℚ), ← hm]
          linarith
        exact lt_of_mul_lt_mul_left hlt hu.le
      have h1' : 2 ^ 52 ≤ m := by exact_mod_cast h1
      have h2' : m < 2 ^ 52 + 1 := by exact_mod_cast h2
      omega
    have hxpow : x.val = 2 ^ (e - 1) * 2 ^ 53 := by
      rw [hm, hm52, zpow_sub_one₀ (by norm_num)]
      push_cast
      ring
    have hFe : ulpExp q = e - 1 := by
      by_contra hne
      have hsmall : q < 2 ^ (e - 1) * 2 ^ (52 : ℤ) := by
        rw [← zpow_add₀ (by norm_num)]
        exact hqlt.trans_le (zpow_le_zpow_right₀ (by norm_num) (by omega))
      have hpow : (2 : ℚ) ^ (52 : ℤ) = 2 ^ 52 := by norm_cast
      have hu1 : (0 : ℚ) < 2 ^ (e - 1) := by positivity
      rw [hpow] at hsmall
      rw [hxpow] at hlow
      nlinarith
    have hround : roundEven (q / 2 ^ (e - 1)) = 2 ^ 53 := by
      have hu1 : (0 : ℚ) < 2 ^ (e - 1) := by positivity
      refine roundEven_of_near ?_
      have hdiff : q / 2 ^ (e - 1) - ((2 ^ 53 : ℤ) : ℚ) = (q - x.val) / 2 ^ (e - 1) := by
        rw [hxpow, Int.cast_pow, Int.cast_ofNat, sub_div, mul_div_cancel_left₀ _ hu1.ne']
      rw [hdiff, abs_div, abs_of_pos hu1, div_lt_iff₀ hu1]
      refine h.trans_le ?_
      rw [hxpow]
      linarith
    rw [hunfold, hFe, hround]
    have hval : (((2 ^ 53 : ℤ) : ℚ)) * 2 ^ (e - 1) = x.val := by
      rw [hxpow, mul_comm, Int.cast_pow, Int.cast_ofNat]
    rw [hval, hclamp]
  · -- on the grid of the double
    have hround : roundEven (q / 2 ^ e) = m := by
      refine roundEven_of_near ?_
      have hdiff : q / 2 ^ e - m = (q - x.val) / 2 ^ e := by
        rw [hm]
        field_simp
      rw [hdiff, abs_div, abs_of_pos hu, div_lt_iff₀ hu]
      linarith
    rw [hunfold, hF, hround, ← hm, hclamp]
  · -- a double does not come that close to the next power of two
    have hq0 : -1074 < ulpExp q := lt_of_le_of_lt (he ▸ le_max_right _ _) hF
    have hbits := zpow_ulpExp_le hq.ne' hq0
    rw [abs_of_pos hq] at hbits
    have htop : 2 ^ e * (2 : ℚ) ^ (53 : ℤ) ≤ q := by
      rw [← zpow_add₀ (by norm_num)]
      exact (zpow_le_zpow_right₀ (by norm_num) (by omega)).trans hbits
    have hpow : (2 : ℚ) ^ (53 : ℤ) = 2 ^ 53 := by norm_cast
    have hxle : x.val ≤ 2 ^ e * (2 ^ 53 - 1) := by
      rw [hm, mul_comm]
      exact mul_le_mul_of_nonneg_left hm53 hu.le
    rw [hpow] at htop
    linarith

/-- **A decimal within one part in `2 ^ 54` of a double reads as that double.** -/
theorem nearest_of_near {x : Double} {q : ℚ} (h : |q - x.val| < |x.val| / 2 ^ 54) :
    nearest q = x.val := by
  rcases lt_trichotomy x.val 0 with hx | hx | hx
  · have hneg : nearest (-q) = (Double.neg x).val := by
      have hval : (Double.neg x).val = -x.val := rfl
      refine nearest_of_near_pos (by rw [hval]; linarith) ?_
      rw [hval, show -q - -x.val = -(q - x.val) by ring, abs_neg, ← abs_of_neg hx]
      exact h
    rw [nearest_neg] at hneg
    exact neg_injective hneg
  · rw [hx, abs_zero, zero_div] at h
    exact absurd h (not_lt.mpr (abs_nonneg _))
  · rw [abs_of_pos hx] at h
    exact nearest_of_near_pos hx h

theorem nearest_two_pow {k : ℤ} (hlo : -1074 ≤ k) (hhi : k ≤ 1023) : nearest (2 ^ k) = 2 ^ k := by
  have hmax : |((1 : ℤ) : ℚ) * 2 ^ k| ≤ maxDouble := by
    rw [Int.cast_one, one_mul, abs_of_pos (by positivity)]
    exact two_pow_le_maxDouble hhi
  have hgrid := nearest_grid (m := 1) (by norm_num) hlo hmax
  rwa [Int.cast_one, one_mul] at hgrid

/-- Decimals far apart do not read as the same double. -/
theorem nearest_lt_of_far {p q : ℚ} (hp : 0 < p) (hlo : 2 ^ (-1073 : ℤ) ≤ q) (hhi : p < 2 ^ (1022 : ℤ))
    (h : 4 * p ≤ q) : nearest p < nearest q := by
  obtain ⟨k, hk⟩ : ∃ k, k = max (Int.log 2 p + 1) (-1074) := ⟨_, rfl⟩
  have hlog : Int.log 2 p < 1022 := (Int.lt_zpow_iff_log_lt (b := 2) (by decide) hp).mp (by exact_mod_cast hhi)
  have hpk : p ≤ 2 ^ k := by
    have hlt := Int.lt_zpow_succ_log_self (b := 2) (by decide) p
    rw [Nat.cast_ofNat] at hlt
    exact hlt.le.trans (zpow_le_zpow_right₀ (by norm_num) (hk ▸ le_max_left _ _))
  have hkq : 2 ^ (k + 1) ≤ q := by
    rcases max_choice (Int.log 2 p + 1) (-1074) with hm | hm
    · have hle := Int.zpow_log_le_self (b := 2) (by decide) hp
      rw [Nat.cast_ofNat] at hle
      rw [hk, hm, show Int.log 2 p + 1 + 1 = Int.log 2 p + 2 by ring, zpow_add₀ (by norm_num)]
      linarith
    · rw [hk, hm]
      exact hlo
  have hlt : (2 : ℚ) ^ k < 2 ^ (k + 1) := zpow_lt_zpow_right₀ (by norm_num) (by omega)
  calc nearest p ≤ nearest (2 ^ k) := nearest_mono_of_pos hp hpk
    _ = 2 ^ k := nearest_two_pow (by omega) (by omega)
    _ < 2 ^ (k + 1) := hlt
    _ = nearest (2 ^ (k + 1)) := (nearest_two_pow (by omega) (by omega)).symm
    _ ≤ nearest q := nearest_mono_of_pos (by positivity) hkq

/-! ## As JavaScript writes a number -/

/-- The number zero. -/
def zeroNumeral : Numeral where
  neg := false
  int := [48]
  frac := none
  exp := none
  intDigits := Decimal.zero_digits
  intSome := Decimal.zero_ne_nil
  noLeading := Decimal.zero_leading
  fracDigits := Decimal.no_fraction

namespace Decimal

/-- The layout `Number::toString` gives the digits. -/
def jsLayout (neg : Bool) (d : Decimal) : Numeral :=
  if (d.digits.length : ℤ) ≤ d.point ∧ d.point ≤ 21 then d.integer neg
  else if h : 0 < d.point ∧ d.point ≤ 21 then d.fixed neg d.point.toNat (by omega)
  else if -6 < d.point ∧ d.point ≤ 0 then d.small neg
  else d.scientific neg (natText (d.point - 1).natAbs) (natText_digits _)

theorem jsLayout_value (neg : Bool) (d : Decimal) : (d.jsLayout neg).value = signed neg d.value := by
  unfold jsLayout
  split
  · rename_i h
    exact d.integer_value neg h.1
  split
  · rename_i h hp
    exact d.fixed_value neg _ _ (by omega) (by omega)
  split
  · rename_i h
    exact d.small_value neg h.2
  · refine d.scientific_value_of neg (natText_digits _) ?_
    rw [readNat_natText, Int.natCast_natAbs]

/-- Digits stand behind a point and in an exponent, and no exponent behind a zero. -/
def Tidy (n : Numeral) : Prop := n.Rfc ∧ ¬ (n.int = [48] ∧ n.frac = none ∧ n.exp.isSome)

theorem tidy_zero : Tidy zeroNumeral := by
  refine ⟨⟨by simp [zeroNumeral], by simp [zeroNumeral]⟩, by simp [zeroNumeral]⟩

theorem tidy_integer (neg : Bool) (d : Decimal) : Tidy (d.integer neg) :=
  ⟨⟨by simp [integer], by simp [integer]⟩, by simp [integer]⟩

theorem tidy_fixed (neg : Bool) (d : Decimal) (n : ℕ) (hn : 0 < n) (h : n < d.digits.length) :
    Tidy (d.fixed neg n hn) := by
  refine ⟨⟨?_, by simp [fixed]⟩, by simp [fixed]⟩
  intro he
  have hlen := congrArg List.length (Option.some.inj he)
  simp only [List.length_drop, List.length_nil] at hlen
  omega

theorem tidy_small (neg : Bool) (d : Decimal) : Tidy (d.small neg) := by
  refine ⟨⟨?_, by simp [small]⟩, by simp [small]⟩
  intro he
  have hnil := (List.append_eq_nil_iff.mp (Option.some.inj he)).2
  exact d.leading.2.1 hnil

theorem tidy_scientific (neg : Bool) (d : Decimal) {expDigits : Bytes}
    (hd : ∀ b ∈ expDigits, isDigit b = true) (hne : expDigits ≠ []) :
    Tidy (d.scientific neg expDigits hd) := by
  refine ⟨⟨?_, by simpa [scientific] using hne⟩, ?_⟩
  · have hpos := d.length_pos
    unfold scientific
    simp only
    split
    · simp
    · intro he
      have hlen := congrArg List.length (Option.some.inj he)
      simp only [List.length_drop, List.length_nil] at hlen
      omega
  · rintro ⟨h48, _⟩
    exact (d.leading.take (by decide : 0 < 1)).2.2 (by rw [show d.digits.take 1 = [48] from h48]; rfl)

theorem tidy_jsLayout (neg : Bool) (d : Decimal) : Tidy (d.jsLayout neg) := by
  unfold jsLayout
  split
  · exact tidy_integer neg d
  split
  · exact tidy_fixed neg d _ _ (by omega)
  split
  · exact tidy_small neg d
  · exact tidy_scientific neg d _ (natText_ne_nil _)

end Decimal

open Decimal

theorem nearest_signed (neg : Bool) (q : ℚ) : nearest (signed neg q) = signed neg (nearest q) := by
  cases neg
  · rfl
  · exact nearest_neg q

/-- What `Number::toString` may write for a finite number: the fewest digits that
read as the number. -/
inductive Shown (x : Double) where
  | zero (h : x.val = 0)
  | digits (neg : Bool) (d : Decimal) (hx : x.val ≠ 0) (h : signed neg (nearest d.value) = x.val)
      (fewest : ∀ d' : Decimal, nearest d'.value = nearest d.value → d.digits.length ≤ d'.digits.length)

namespace Shown

def numeral {x : Double} : Shown x → Numeral
  | zero _ => zeroNumeral
  | digits neg d _ _ _ => d.jsLayout neg

theorem tidy {x : Double} (t : Shown x) : Tidy t.numeral := by
  cases t with
  | zero h => exact tidy_zero
  | digits neg d hx h fewest => exact tidy_jsLayout neg d

/-- What JavaScript writes reads back. -/
theorem reads {x : Double} (t : Shown x) : nearest t.numeral.value = x.val := by
  cases t with
  | zero h =>
    rw [h]
    exact if_pos (by simp [numeral, zeroNumeral, Numeral.value, Numeral.fracValue, readNat])
  | digits neg d hx h fewest => rw [numeral, jsLayout_value, nearest_signed, h]

/-- Close to an integer no other decimal reads as it. -/
theorem near_of_nearest {q : ℚ} {n : ℕ} (hq : 0 < q) (h0 : 0 < n) (hn : n ≤ 2 ^ 32)
    (h : nearest q = n) : (n : ℚ) - 1 / 16 < q ∧ q < n + 1 / 16 := by
  have hgrid : ∀ m : ℤ, |m| ≤ 2 ^ 53 → nearest (m / 16) = m / 16 := by
    intro m hm
    have h16 : (m : ℚ) / 16 = m * 2 ^ (-4 : ℤ) := by
      norm_num
      ring
    rw [h16]
    refine nearest_grid hm (by norm_num) ?_
    rw [abs_mul, abs_of_pos (by positivity : (0 : ℚ) < 2 ^ (-4 : ℤ))]
    have hm' : |(m : ℚ)| ≤ 2 ^ 53 := by exact_mod_cast hm
    have hmax : (2 : ℚ) ^ (53 : ℤ) ≤ maxDouble := two_pow_le_maxDouble (by norm_num)
    have hpow : (2 : ℚ) ^ (53 : ℤ) = 2 ^ 53 := by norm_cast
    rw [hpow] at hmax
    norm_num at hmax hm' ⊢
    linarith
  have hlow : (((16 * n - 1 : ℤ)) : ℚ) / 16 = n - 1 / 16 := by
    push_cast
    ring
  have hhigh : (((16 * n + 1 : ℤ)) : ℚ) / 16 = n + 1 / 16 := by
    push_cast
    ring
  have hnq : (1 : ℚ) ≤ n := by exact_mod_cast h0
  constructor
  · by_contra hle
    have hmono := nearest_mono_of_pos hq (not_lt.mp hle)
    rw [h, ← hlow, hgrid _ (by rw [abs_of_nonneg (by omega)]; omega), hlow] at hmono
    linarith
  · by_contra hle
    have hmono := nearest_mono_of_pos (by linarith) (not_lt.mp hle)
    rw [h, ← hhigh, hgrid _ (by rw [abs_of_nonneg (by omega)]; omega), hhigh] at hmono
    linarith

/-- The fewest digits of an integer are its own. -/
theorem integer_of_fewest {d : Decimal} {n : ℕ} (h0 : 0 < n) (hn : n ≤ 2 ^ 32)
    (h : nearest d.value = n)
    (fewest : ∀ d' : Decimal, nearest d'.value = nearest d.value → d.digits.length ≤ d'.digits.length) :
    (d.digits.length : ℤ) ≤ d.point ∧ d.point ≤ 21 ∧ d.value = n := by
  obtain ⟨hlo, hhi⟩ := d.value_bounds
  have hvpos : 0 < d.value := lt_of_lt_of_le (by positivity) hlo
  obtain ⟨hnear1, hnear2⟩ := near_of_nearest hvpos h0 hn h
  have hnearest : nearest n = n := by
    exact_mod_cast nearest_intCast (n := n) (by rw [abs_of_nonneg (by omega)]; omega)
  have hsame : ∀ d' : Decimal, d'.value = n → d.digits.length ≤ d'.digits.length := by
    intro d' hd'
    exact fewest d' (by rw [hd', hnearest, h])
  have hn1 : (1 : ℚ) ≤ n := by exact_mod_cast h0
  obtain ⟨k, hk, hlow, hhigh⟩ := natText_bounds h0
  have hown : d.digits.length ≤ k + 1 := by
    rw [← hk]
    refine hsame ⟨n, (natText n).length, h0⟩ ?_
    simp [Decimal.value, Decimal.digits]
  have hlen := d.length_pos
  have hlayout : (d.digits.length : ℤ) ≤ d.point := by
    by_contra hlt
    rcases lt_or_ge d.point 0 with hneg | hnonneg
    · have hsmall : (10 : ℚ) ^ d.point ≤ 1 / 10 := by
        calc (10 : ℚ) ^ d.point ≤ 10 ^ (-1 : ℤ) := zpow_le_zpow_right₀ (by norm_num) (by omega)
          _ = 1 / 10 := by norm_num
      linarith
    · obtain ⟨p, hp⟩ : ∃ p : ℕ, d.point = p := ⟨d.point.toNat, by omega⟩
      rw [hp, zpow_natCast] at hhi
      have hpk : p ≤ k := by omega
      -- the decimal is below the power of ten the integer must then be
      have hnp : n ≤ 10 ^ p := by
        by_contra hgt
        have hge : ((10 ^ p + 1 : ℕ) : ℚ) ≤ n := by exact_mod_cast not_le.mp hgt
        push_cast at hge
        linarith
      have hpow : 10 ^ p ≤ 10 ^ k := Nat.pow_le_pow_right (by norm_num) hpk
      have hpk' : p = k := by
        by_contra hne
        have := Nat.pow_lt_pow_right (a := 10) (by norm_num) (show p < k by omega)
        omega
      have hnk : n = 10 ^ p := by omega
      have hone : d.digits.length ≤ 1 := by
        have hdigit : (natText 1).length = 1 := by decide
        rw [← hdigit]
        refine hsame ⟨1, p + 1, by norm_num⟩ ?_
        rw [hnk]
        simp [Decimal.value, Decimal.digits, hdigit]
      have hp0 : p = 0 := by omega
      have hs : d.s < 10 := (length_natText_le_iff (k := 1) (by norm_num)).mp hone
      have hval : d.value = d.s / 10 := by
        have hlen1 : d.digits.length = 1 := by omega
        rw [Decimal.value, hp, hp0, hlen1]
        norm_num
        ring
      have hs' : (d.s : ℚ) ≤ 9 := by exact_mod_cast (by omega : d.s ≤ 9)
      rw [hval] at hnear1
      linarith
  obtain ⟨j, hj⟩ : ∃ j : ℕ, d.point - d.digits.length = j := ⟨(d.point - d.digits.length).toNat, by omega⟩
  have hvalue : d.value = ((d.s * 10 ^ j : ℕ) : ℚ) := by
    rw [Decimal.value, hj, zpow_natCast]
    push_cast
    ring
  have heq : d.s * 10 ^ j = n := by
    rw [hvalue] at hnear1 hnear2
    by_contra hne
    rcases Nat.lt_or_gt_of_ne hne with hlt | hgt
    · have : ((d.s * 10 ^ j + 1 : ℕ) : ℚ) ≤ n := by exact_mod_cast hlt
      push_cast at this hnear1
      linarith
    · have : ((n + 1 : ℕ) : ℚ) ≤ (d.s * 10 ^ j : ℕ) := by exact_mod_cast hgt
      push_cast at this hnear2
      linarith
  refine ⟨hlayout, ?_, by rw [hvalue, heq]⟩
  by_contra hbig
  have hten : (10 : ℚ) ^ (21 : ℤ) ≤ 10 ^ (d.point - 1) := zpow_le_zpow_right₀ (by norm_num) (by omega)
  have hn' : (n : ℚ) ≤ 4294967296 := by exact_mod_cast hn
  norm_num at hten
  linarith

/-- An integer is written with its digits. -/
theorem integer {x : Double} (t : Shown x) {i : ℤ} (hx : x.val = i) (hi : |i| ≤ 2 ^ 32) :
    t.numeral.neg = decide (i < 0) ∧ readNat t.numeral.int = i.natAbs := by
  cases t with
  | zero h =>
    obtain rfl : i = 0 := by exact_mod_cast hx.symm.trans h
    exact ⟨rfl, rfl⟩
  | digits neg d hne h fewest =>
    have hi0 : i ≠ 0 := by
      rintro rfl
      exact hne (by exact_mod_cast hx)
    have hvpos : 0 < d.value := lt_of_lt_of_le (by positivity) d.value_bounds.1
    have hnonneg : 0 ≤ nearest d.value := nearest_nonneg_iff.mpr (by linarith [show (0 : ℚ) < 2 ^ (-1075 : ℤ) by positivity])
    have hsign : neg = decide (i < 0) ∧ nearest d.value = (i.natAbs : ℕ) := by
      have habs : ((i.natAbs : ℕ) : ℚ) = |(i : ℚ)| := by
        rw [← Int.cast_abs, ← Int.natCast_natAbs, Int.cast_natCast]
      have hi0' : (i : ℚ) ≠ 0 := by exact_mod_cast hi0
      rw [hx] at h
      rw [habs, ← h]
      cases neg with
      | false =>
        have hpos : (0 : ℚ) ≤ i := h ▸ hnonneg
        have hlt : ¬ i < 0 := not_lt.mpr (by exact_mod_cast hpos)
        exact ⟨by simp [hlt], (abs_of_nonneg hnonneg).symm⟩
      | true =>
        have hle : (i : ℚ) ≤ 0 := by
          rw [← h]
          show -nearest d.value ≤ 0
          linarith
        have hlt : i < 0 := lt_of_le_of_ne (by exact_mod_cast hle) hi0
        refine ⟨by simp [hlt], ?_⟩
        show nearest d.value = |-nearest d.value|
        rw [abs_neg, abs_of_nonneg hnonneg]
    obtain ⟨rfl, hnat⟩ := hsign
    rw [← Int.natCast_natAbs] at hi
    obtain ⟨hlen, hpoint, hval⟩ := integer_of_fewest (by omega) (by omega) hnat fewest
    have hlayout : d.jsLayout (decide (i < 0)) = d.integer (decide (i < 0)) := if_pos ⟨hlen, hpoint⟩
    rw [numeral, hlayout]
    refine ⟨rfl, ?_⟩
    have hread : readNat (d.digits ++ List.replicate (d.point.toNat - d.digits.length) 48) =
        d.s * 10 ^ (d.point.toNat - d.digits.length) := by
      rw [readNat_append, readNat_zeros, d.readNat_digits, List.length_replicate, Nat.add_zero]
    have hpow : d.point - d.digits.length = ((d.point.toNat - d.digits.length : ℕ) : ℤ) := by omega
    rw [Decimal.value, hpow, zpow_natCast] at hval
    exact hread.trans (by exact_mod_cast hval)

end Shown

/-! ## As `printf("%.17g")` writes a number -/

/-- The number without its last zeros. -/
def stripZeros : ℕ → ℕ → ℕ
  | 0, n => n
  | fuel + 1, n => if n % 10 = 0 then stripZeros fuel (n / 10) else n

theorem stripZeros_spec (fuel : ℕ) {n : ℕ} (hn : 0 < n) (hf : n < 10 ^ fuel) :
    0 < stripZeros fuel n ∧ stripZeros fuel n % 10 ≠ 0 ∧ ∃ t, n = stripZeros fuel n * 10 ^ t := by
  induction fuel generalizing n with
  | zero =>
    rw [pow_zero] at hf
    omega
  | succ fuel ih =>
    rw [stripZeros]
    split
    · rename_i h
      have hlt : n / 10 < 10 ^ fuel := by
        rw [pow_succ] at hf
        omega
      obtain ⟨hpos, hlast, t, ht⟩ := ih (n := n / 10) (by omega) hlt
      refine ⟨hpos, hlast, t + 1, ?_⟩
      rw [pow_succ, ← mul_assoc, ← ht]
      omega
    · rename_i h
      exact ⟨hn, h, 0, by simp⟩

/-- The first seventeen digits of a positive number, rounded, as an integer. -/
def sig17 (a : ℚ) : ℕ := (roundEven (a / 10 ^ (Int.log 10 a - 16))).toNat

section Sig

variable {a : ℚ} (ha : 0 < a)

include ha

theorem sig17_cast : ((sig17 a : ℕ) : ℚ) = roundEven (a / 10 ^ (Int.log 10 a - 16)) := by
  have hpos : (0 : ℚ) < 10 ^ (Int.log 10 a - 16) := by positivity
  have hround : 0 ≤ roundEven (a / 10 ^ (Int.log 10 a - 16)) :=
    roundEven_intCast 0 ▸ roundEven_mono (by rw [Int.cast_zero]; positivity)
  have hnat : ((sig17 a : ℕ) : ℤ) = roundEven (a / 10 ^ (Int.log 10 a - 16)) :=
    Int.toNat_of_nonneg hround
  exact_mod_cast hnat

/-- Seventeen digits are off by half a unit of the last one. -/
theorem abs_sig17_sub_le :
    |(sig17 a : ℚ) * 10 ^ (Int.log 10 a - 16) - a| ≤ 10 ^ (Int.log 10 a - 16) / 2 := by
  have hpos : (0 : ℚ) < 10 ^ (Int.log 10 a - 16) := by positivity
  have he : (sig17 a : ℚ) * 10 ^ (Int.log 10 a - 16) - a =
      (roundEven (a / 10 ^ (Int.log 10 a - 16)) - a / 10 ^ (Int.log 10 a - 16)) *
        10 ^ (Int.log 10 a - 16) := by
    rw [sig17_cast ha]
    field_simp
  rw [he, abs_mul, abs_of_pos hpos]
  calc _ ≤ 1 / 2 * 10 ^ (Int.log 10 a - 16) :=
        mul_le_mul_of_nonneg_right (abs_roundEven_sub_le _) hpos.le
    _ = 10 ^ (Int.log 10 a - 16) / 2 := by ring

theorem zpow_log_le : (10 : ℚ) ^ (Int.log 10 a - 16) * 10 ^ 16 ≤ a := by
  have h := Int.zpow_log_le_self (b := 10) (by decide) ha
  have hsplit : (10 : ℚ) ^ (Int.log 10 a - 16) * 10 ^ 16 = ((10 : ℕ) : ℚ) ^ Int.log 10 a := by
    rw [← zpow_natCast, ← zpow_add₀ (by norm_num)]
    norm_num
  rw [hsplit]
  exact h

/-- They number seventeen, or are a power of ten. -/
theorem sig17_bounds : 10 ^ 16 ≤ sig17 a ∧ sig17 a ≤ 10 ^ 17 := by
  have hpos : (0 : ℚ) < 10 ^ (Int.log 10 a - 16) := by positivity
  have hlow := zpow_log_le ha
  have hhigh := Int.lt_zpow_succ_log_self (b := 10) (by decide) a
  have hsplit : ((10 : ℕ) : ℚ) ^ (Int.log 10 a + 1) = 10 ^ (Int.log 10 a - 16) * 10 ^ 17 := by
    rw [← zpow_natCast, ← zpow_add₀ (by norm_num), Nat.cast_ofNat]
    congr 1
    push_cast
    ring
  rw [hsplit] at hhigh
  have h1 : ((10 ^ 16 : ℤ) : ℚ) ≤ a / 10 ^ (Int.log 10 a - 16) := by
    rw [le_div_iff₀ hpos, mul_comm]
    exact_mod_cast hlow
  have h2 : a / 10 ^ (Int.log 10 a - 16) ≤ ((10 ^ 17 : ℤ) : ℚ) := by
    rw [div_le_iff₀ hpos, mul_comm]
    exact_mod_cast hhigh.le
  have h1' := roundEven_intCast (10 ^ 16) ▸ roundEven_mono h1
  have h2' := roundEven_intCast (10 ^ 17) ▸ roundEven_mono h2
  unfold sig17
  omega

end Sig

/-- The digits `%.17g` writes of a positive number, without the last zeros. -/
def gDecimal (a : ℚ) (ha : 0 < a) : Decimal where
  s := stripZeros 18 (sig17 a)
  point := (natText (sig17 a)).length + Int.log 10 a - 16
  pos := by
    have h := sig17_bounds ha
    exact (stripZeros_spec 18 (by omega) (by omega)).1

theorem gDecimal_value {a : ℚ} (ha : 0 < a) :
    (gDecimal a ha).value = sig17 a * 10 ^ (Int.log 10 a - 16) := by
  have hb := sig17_bounds ha
  obtain ⟨hpos, _, t, ht⟩ := stripZeros_spec 18 (n := sig17 a) (by omega) (by omega)
  have hlen : (natText (sig17 a)).length = (natText (stripZeros 18 (sig17 a))).length + t := by
    conv_lhs => rw [ht]
    exact length_natText_mul hpos t
  have hcast : (sig17 a : ℚ) = stripZeros 18 (sig17 a) * 10 ^ (t : ℤ) := by
    rw [zpow_natCast]
    exact_mod_cast ht
  have hexp : ((natText (sig17 a)).length : ℤ) + Int.log 10 a - 16 -
      (natText (stripZeros 18 (sig17 a))).length = t + (Int.log 10 a - 16) := by
    rw [hlen]
    push_cast
    ring
  show (stripZeros 18 (sig17 a) : ℚ) * 10 ^ (((natText (sig17 a)).length : ℤ) + Int.log 10 a - 16 -
    (natText (stripZeros 18 (sig17 a))).length) = _
  rw [hexp, zpow_add₀ (by norm_num), ← mul_assoc, ← hcast]

/-- The last digit is none of the zeros. -/
theorem gDecimal_last {a : ℚ} (ha : 0 < a) : (gDecimal a ha).s % 10 ≠ 0 := by
  have hb := sig17_bounds ha
  exact (stripZeros_spec 18 (n := sig17 a) (by omega) (by omega)).2.1

theorem gDecimal_near {a : ℚ} (ha : 0 < a) : |(gDecimal a ha).value - a| < a / 2 ^ 54 := by
  have hlow := zpow_log_le ha
  have hpos : (0 : ℚ) < 10 ^ (Int.log 10 a - 16) := by positivity
  rw [gDecimal_value]
  refine (abs_sig17_sub_le ha).trans_lt ?_
  rw [div_lt_div_iff₀ (by norm_num) (by norm_num)]
  nlinarith

/-- The digits of `%.17g`, of a number other than zero. -/
def Double.decimal (x : Double) (h : x.val ≠ 0) : Decimal := gDecimal |x.val| (abs_pos.mpr h)

theorem nearest_decimal {x : Double} (h : x.val ≠ 0) : nearest (x.decimal h).value = |x.val| := by
  have hnear := gDecimal_near (abs_pos.mpr h)
  by_cases hx : x.val < 0
  · have hval : (Double.neg x).val = |x.val| := (abs_of_neg hx).symm
    rw [← hval]
    refine nearest_of_near ?_
    rw [hval, abs_abs]
    exact hnear
  · have hval : x.val = |x.val| := (abs_of_nonneg (not_lt.mp hx)).symm
    conv_rhs => rw [← hval]
    refine nearest_of_near ?_
    conv_lhs => rw [hval]
    exact hnear

theorem Double.le_abs {x : Double} (h : x.val ≠ 0) : 2 ^ (-1074 : ℤ) ≤ |x.val| := by
  rcases lt_or_gt_of_ne h with hx | hx
  · rw [abs_of_neg hx]
    linarith [Double.le_of_neg hx]
  · have hneg : (Double.neg x).val < 0 := by
      show -x.val < 0
      linarith
    have hle : -x.val ≤ -(2 ^ (-1074 : ℤ)) := Double.le_of_neg hneg
    rw [abs_of_pos hx]
    linarith

theorem maxDouble_lt : maxDouble < 2 ^ (1024 : ℤ) := by
  have hsplit : (2 : ℚ) ^ (1024 : ℤ) = 2 ^ 53 * 2 ^ (971 : ℤ) := by
    rw [← zpow_natCast, ← zpow_add₀ (by norm_num)]
    rfl
  rw [hsplit, maxDouble]
  exact mul_lt_mul_of_pos_right (by norm_num) (by positivity)

/-- A decimal of a double with its point moved does not read as the double. -/
theorem nearest_shift {x : Double} (h : x.val ≠ 0) {e : ℤ}
    (he : (x.decimal h).point ≤ 0 ∧ 2 ≤ e ∨ 0 < (x.decimal h).point ∧ e ≤ -2) :
    nearest ((x.decimal h).value * 10 ^ e) ≠ |x.val| := by
  obtain ⟨hlo, hhi⟩ := (x.decimal h).value_bounds
  have hreads := nearest_decimal h
  obtain ⟨hnear1, hnear2⟩ := abs_lt.mp (gDecimal_near (abs_pos.mpr h))
  have hmin := Double.le_abs h
  have hmax := x.abs_val_le.trans_lt maxDouble_lt
  have hv : gDecimal |x.val| (abs_pos.mpr h) = x.decimal h := rfl
  rw [hv] at hnear1 hnear2
  obtain ⟨v, hval⟩ : ∃ v, v = (x.decimal h).value := ⟨_, rfl⟩
  rw [← hval] at hlo hhi hreads hnear1 hnear2 ⊢
  have hvpos : 0 < v := lt_of_lt_of_le (by positivity) hlo
  rcases he with ⟨hp, he⟩ | ⟨hp, he⟩
  · have hpow : (10 : ℚ) ^ (2 : ℤ) ≤ 10 ^ e := zpow_le_zpow_right₀ (by norm_num) he
    have hone : (10 : ℚ) ^ (x.decimal h).point ≤ 1 := zpow_le_one_of_nonpos₀ (by norm_num) hp
    have htop : (1 : ℚ) ≤ 2 ^ (1022 : ℤ) := one_le_zpow₀ (by norm_num) (by norm_num)
    have hbot : (2 : ℚ) ^ (-1073 : ℤ) = 2 ^ (-1074 : ℤ) * 2 := by
      rw [show (-1073 : ℤ) = -1074 + 1 by norm_num, zpow_add₀ (by norm_num), zpow_one]
    have hq : v * 10 ^ (2 : ℤ) ≤ v * 10 ^ e := mul_le_mul_of_nonneg_left hpow hvpos.le
    have h100 : (10 : ℚ) ^ (2 : ℤ) = 100 := by norm_num
    rw [h100] at hq
    refine ne_of_gt ?_
    rw [← hreads]
    refine nearest_lt_of_far hvpos ?_ ((hhi.trans_le hone).trans_le htop) (by linarith)
    rw [hbot]
    linarith
  · have hpow : (10 : ℚ) ^ e ≤ 10 ^ (-2 : ℤ) := zpow_le_zpow_right₀ (by norm_num) he
    have hone : (1 : ℚ) ≤ 10 ^ ((x.decimal h).point - 1) := one_le_zpow₀ (by norm_num) (by omega)
    have hbot : (2 : ℚ) ^ (-1073 : ℤ) ≤ 1 := zpow_le_one_of_nonpos₀ (by norm_num) (by norm_num)
    have htop : (2 : ℚ) ^ (1024 : ℤ) = 2 ^ (1022 : ℤ) * 4 := by
      rw [show (1024 : ℤ) = 1022 + 2 by norm_num, zpow_add₀ (by norm_num)]
      norm_num
    have hq : v * 10 ^ e ≤ v * 10 ^ (-2 : ℤ) := mul_le_mul_of_nonneg_left hpow hvpos.le
    have h100 : (10 : ℚ) ^ (-2 : ℤ) = 1 / 100 := by norm_num
    rw [h100] at hq
    refine ne_of_lt ?_
    rw [← hreads]
    refine nearest_lt_of_far (by positivity) (by linarith) ?_ (by linarith)
    rw [htop] at hmax
    generalize (2 : ℚ) ^ (1022 : ℤ) = top at hmax
    linarith only [hnear2, hmax, hvpos, hq]

theorem signed_abs (q : ℚ) : signed (decide (q < 0)) |q| = q := by
  unfold signed
  by_cases hq : q < 0
  · rw [if_pos (by simpa using hq), abs_of_neg hq, neg_neg]
  · rw [if_neg (by simpa using hq), abs_of_nonneg (not_lt.mp hq)]

theorem signed_inj {neg : Bool} {p q : ℚ} (h : signed neg p = signed neg q) : p = q := by
  cases neg
  · exact h
  · exact neg_injective h

/-- **Seventeen digits tell doubles apart.** -/
theorem decimal_reads {x : Double} (h : x.val ≠ 0) :
    nearest (signed (decide (x.val < 0)) (x.decimal h).value) = x.val := by
  rw [nearest_signed, nearest_decimal, signed_abs]

namespace Decimal

/-- The digits of an exponent, two of them at least. -/
def gExp (X : ℤ) : Bytes :=
  List.replicate (2 - (natText X.natAbs).length) 48 ++ natText X.natAbs

theorem gExp_digits (X : ℤ) : ∀ b ∈ gExp X, isDigit b = true := by
  intro b hb
  rcases List.mem_append.mp hb with hb | hb
  · exact zeros_digits _ b hb
  · exact natText_digits _ b hb

theorem readNat_gExp (X : ℤ) : readNat (gExp X) = X.natAbs := by
  rw [gExp, readNat_append, readNat_zeros, readNat_natText, Nat.zero_mul, Nat.zero_add]

theorem gExp_ne_nil (X : ℤ) : gExp X ≠ [] := by
  intro h
  exact natText_ne_nil _ (List.append_eq_nil_iff.mp h).2

/-- No exponent: as many places before or behind the point as it takes. -/
def plain (neg : Bool) (d : Decimal) : Numeral :=
  if (d.digits.length : ℤ) ≤ d.point then d.integer neg
  else if h : 0 < d.point then d.fixed neg d.point.toNat (by omega)
  else d.small neg

theorem plain_value (neg : Bool) (d : Decimal) : (d.plain neg).value = signed neg d.value := by
  unfold plain
  split
  · exact d.integer_value neg ‹_›
  split
  · exact d.fixed_value neg _ _ (by omega) (by omega)
  · exact d.small_value neg (by omega)

theorem tidy_plain (neg : Bool) (d : Decimal) : Tidy (d.plain neg) := by
  unfold plain
  split
  · exact tidy_integer neg d
  split
  · exact tidy_fixed neg d _ _ (by omega)
  · exact tidy_small neg d

/-- The exponents without which `%.17g` writes. -/
def IsPlain (d : Decimal) : Prop := -4 ≤ d.point - 1 ∧ d.point - 1 < 17

instance (d : Decimal) : Decidable d.IsPlain := inferInstanceAs (Decidable (_ ∧ _))

/-- The layout of `%.17g`. -/
def gLayout (neg : Bool) (d : Decimal) : Numeral :=
  if d.IsPlain then d.plain neg else d.scientific neg (gExp (d.point - 1)) (gExp_digits _)

theorem gLayout_value (neg : Bool) (d : Decimal) : (d.gLayout neg).value = signed neg d.value := by
  unfold gLayout
  split
  · exact d.plain_value neg
  · refine d.scientific_value_of neg (gExp_digits _) ?_
    rw [readNat_gExp, Int.natCast_natAbs]

end Decimal

/-- `%.17g` of a number. -/
def gNumeral (x : Double) : Numeral :=
  if h : x.val = 0 then zeroNumeral else (x.decimal h).gLayout (decide (x.val < 0))

end ExpenseTracker.Core
