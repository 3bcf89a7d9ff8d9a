import Mathlib.Data.List.DropRight
import ExpenseTracker.Core.DecimalDouble
import ExpenseTracker.Core.JsonWrite
import ExpenseTracker.L3Server.Json

/-!
# The JSON writer

`crow::json::wvalue::dump`: strings are escaped, and a double is what
`printf("%.17g")` writes, from which a loop then takes the zeros at its end.
The loop was meant for the digits behind a point. It does not stop at an
exponent, so with a point in front it takes the zeros of the exponent too.

* `dump_text`: what is written is the text of an `Out`, so it is JSON.
* `reads_iff`: a double reads back unless the loop shortens its exponent.
-/
namespace ExpenseTracker.L3.CrowDump

open ExpenseTracker.Core ExpenseTracker.Core.JsonSyntax ExpenseTracker.Core.JsonWrite
open ExpenseTracker.L3.Json

/-! ## Strings -/

/-- mirrors src/include/Crow/include/crow/json.h:37-43 -/
def toHex (c : UInt8) : UInt8 :=
  let c := c &&& 0xf
  if c < 10 then 48 + c else 97 + c - 10

/-- One character of `escape`.
mirrors src/include/Crow/include/crow/json.h:45-71 -/
def escapeChar (c : UInt8) : Bytes :=
  if c = 34 then [92, 34]
  else if c = 92 then [92, 92]
  else if c = 10 then [92, 110]
  else if c = 8 then [92, 98]
  else if c = 12 then [92, 102]
  else if c = 13 then [92, 114]
  else if c = 9 then [92, 116]
  else if c < 32 then [92, 117, 48, 48, toHex (c / 16), toHex (c % 16)]
  else [c]

def escape (s : Bytes) : Bytes := s.flatMap escapeChar

/-- mirrors src/include/Crow/include/crow/json.h:1858-1863 -/
def dumpString (s : Bytes) : Bytes := 34 :: (escape s ++ [34])

theorem toHex_control : ∀ n < 32, toHex (UInt8.ofNat n / 16) = hexDigit (n / 16) ∧
    toHex (UInt8.ofNat n % 16) = hexDigit (n % 16) := by decide

theorem control_text {c : UInt8} (h : c < 32) :
    [92, 117, 48, 48, toHex (c / 16), toHex (c % 16)] = (Piece.unit (control c)).text := by
  obtain ⟨hi, lo⟩ := toHex_control c.toNat (UInt8.lt_iff_toNat_lt.mp h)
  rw [UInt8.ofNat_toNat] at hi lo
  rw [hi, lo]
  rfl

theorem escapeChar_eq (c : UInt8) : escapeChar c = (quote c).text := by
  unfold escapeChar quote
  split_ifs
  all_goals first | rfl | exact control_text ‹_›

theorem dumpString_eq (s : Bytes) : dumpString s = quoted s := by
  unfold dumpString escape quoted texts
  rw [List.flatMap_map, funext escapeChar_eq]

/-! ## The loop over the digits -/

/-- mirrors src/include/Crow/include/crow/json.h:1888-1893 -/
inductive FState where
  | start
  | decp
  | zero

/-- The loop at position `p`, and the position it has recorded.
mirrors src/include/Crow/include/crow/json.h:1914-1946 -/
def trimLoop : FState → ℕ → Option ℕ → Bytes → Option ℕ
  | _, _, pos, [] => pos
  | .start, p, pos, 46 :: 48 :: s => trimLoop .decp (p + 2) pos s
  | .start, p, pos, ch :: s => trimLoop (if ch = 46 then .decp else .start) (p + 1) pos s
  | .decp, p, pos, ch :: s =>
    if ch = 48 then trimLoop .zero (p + 1) (some p) s else trimLoop .decp (p + 1) pos s
  | .zero, p, pos, ch :: s =>
    if ch ≠ 48 then trimLoop .decp (p + 1) none s else trimLoop .zero (p + 1) pos s

/-- `*pos_first_trailing_0 = '\0'` -/
def cutAt (outbuf : Bytes) : Option ℕ → Bytes
  | none => outbuf
  | some p => outbuf.take p

/-- mirrors src/include/Crow/include/crow/json.h:1911-1950 -/
def trim (outbuf : Bytes) : Bytes := cutAt outbuf (trimLoop .start 0 none outbuf)

/-- Without the zeros at the end. -/
def stripped (s : Bytes) : Bytes := s.rdropWhile (· == 48)

theorem stripped_cons (b : UInt8) (s : Bytes) :
    stripped (b :: s) = if stripped s = [] ∧ b = 48 then [] else b :: stripped s := by
  unfold stripped List.rdropWhile
  rw [List.reverse_cons, List.dropWhile_append]
  simp only [List.isEmpty_iff, List.reverse_eq_nil_iff]
  by_cases hs : s.reverse.dropWhile (· == 48) = []
  · by_cases hb : b = 48
    · simp [hs, hb]
    · simp [hs, hb]
  · simp [hs]

theorem stripped_zero {s : Bytes} (h : stripped s = []) : stripped (48 :: s) = [] := by
  rw [stripped_cons, if_pos ⟨h, rfl⟩]

theorem stripped_keep {b : UInt8} {s : Bytes} (h : stripped s = [] → b ≠ 48) :
    stripped (b :: s) = b :: stripped s := by
  rw [stripped_cons, if_neg fun hb => h hb.1 hb.2]

theorem cutAt_decp_zero (s a : Bytes) :
    cutAt (a ++ s) (trimLoop .decp a.length none s) = a ++ stripped s ∧
    ∀ i ≤ a.length, cutAt (a ++ s) (trimLoop .zero a.length (some i) s) =
      if stripped s = [] then a.take i else a ++ stripped s := by
  induction s generalizing a with
  | nil => exact ⟨rfl, fun i _ => by rw [List.append_nil]; rfl⟩
  | cons b s ih =>
    obtain ⟨hdecp, hzero⟩ := ih (a ++ [b])
    rw [List.length_append, List.length_singleton, List.append_assoc, List.singleton_append] at hdecp hzero
    rw [List.append_assoc, List.singleton_append] at hdecp
    by_cases hb : b = 48
    · subst hb
      by_cases hs : stripped s = []
      · refine ⟨?_, fun i hi => ?_⟩
        · rw [trimLoop, if_pos rfl, hzero _ (by omega), if_pos hs, stripped_zero hs, List.take_left,
            List.append_nil]
        · rw [trimLoop, if_neg (by simp), hzero i (by omega), if_pos hs, if_pos (stripped_zero hs),
            List.take_append_of_le_length hi]
      · have hkeep : stripped (48 :: s) = 48 :: stripped s := stripped_keep fun h => absurd h hs
        refine ⟨?_, fun i hi => ?_⟩
        · rw [trimLoop, if_pos rfl, hzero _ (by omega), if_neg hs, hkeep, List.append_assoc,
            List.singleton_append]
        · rw [trimLoop, if_neg (by simp), hzero i (by omega), if_neg hs, hkeep, if_neg (by simp),
            List.append_assoc, List.singleton_append]
    · have hkeep : stripped (b :: s) = b :: stripped s := stripped_keep fun _ => hb
      refine ⟨?_, fun i _ => ?_⟩
      · rw [trimLoop, if_neg hb, hdecp, hkeep]
      · rw [trimLoop, if_pos hb, hdecp, hkeep, if_neg (by simp)]

/-- What the loop leaves behind a point. -/
def afterPoint : Bytes → Bytes
  | 48 :: s => 48 :: stripped s
  | s => stripped s

theorem trim_noPoint {a : Bytes} (h : (46 : UInt8) ∉ a) : trim a = a := by
  have hloop : ∀ p, trimLoop .start p none a = none := by
    induction a with
    | nil => exact fun _ => rfl
    | cons b a ih =>
      have hb : b ≠ 46 := by
        rintro rfl
        exact h List.mem_cons_self
      have ha : (46 : UInt8) ∉ a := fun hmem => h (List.mem_cons_of_mem _ hmem)
      intro p
      have hstep : trimLoop .start p none (b :: a) = trimLoop .start (p + 1) none a := by
        rw [trimLoop.eq_3 _ _ _ _ (by rintro s rfl; exact absurd rfl hb), if_neg hb]
      rw [hstep, ih ha]
  rw [trim, hloop]
  rfl

theorem trim_point {a : Bytes} (h : (46 : UInt8) ∉ a) (s : Bytes) :
    trim (a ++ 46 :: s) = a ++ 46 :: afterPoint s := by
  have hskip : ∀ a₁ a₂ : Bytes, a = a₁ ++ a₂ →
      trimLoop .start a₁.length none (a₂ ++ 46 :: s) = trimLoop .start a.length none (46 :: s) := by
    intro a₁ a₂ he
    induction a₂ generalizing a₁ with
    | nil =>
      rw [he, List.append_nil]
      rfl
    | cons b a₂ ih =>
      have hb : b ≠ 46 := by
        rintro rfl
        exact h (he ▸ by simp)
      have hnext := ih (a₁ ++ [b]) (by rw [he, List.append_assoc, List.singleton_append])
      rw [List.length_append, List.length_singleton] at hnext
      rw [List.cons_append, trimLoop.eq_3 _ _ _ _ (by rintro s rfl; exact absurd rfl hb), if_neg hb,
        hnext]
  have hstart := hskip [] a rfl
  rw [List.length_nil] at hstart
  unfold trim
  rw [hstart]
  by_cases hs : ∃ r, s = 48 :: r
  · obtain ⟨r, rfl⟩ := hs
    have hcut := (cutAt_decp_zero r (a ++ [46, 48])).1
    rw [List.length_append] at hcut
    simpa [trimLoop, afterPoint] using hcut
  · have hcut := (cutAt_decp_zero s (a ++ [46])).1
    rw [List.length_append, List.length_singleton] at hcut
    have hafter : afterPoint s = stripped s := by
      unfold afterPoint
      split
      · exact absurd ⟨_, rfl⟩ hs
      · rfl
    rw [trimLoop.eq_3 _ _ _ _ (by rintro r _ rfl; exact hs ⟨r, rfl⟩), if_pos rfl, hafter]
    simpa using hcut

/-! ## Stripping digits -/

theorem stripped_append (a : Bytes) {b : Bytes} (h : stripped b ≠ []) :
    stripped (a ++ b) = a ++ stripped b := by
  induction a with
  | nil => rfl
  | cons c a ih =>
    have hne : stripped (a ++ b) ≠ [] := by simp [ih, h]
    rw [List.cons_append, stripped_keep fun he => absurd he hne, ih, List.cons_append]

theorem stripped_eq_self {s : Bytes} (h : ∀ hne : s ≠ [], s.getLast hne ≠ 48) : stripped s = s := by
  refine List.rdropWhile_eq_self_iff.mpr fun hne => ?_
  simpa using h hne

/-- Digits lose a power of ten with their zeros. -/
theorem readNat_stripped (ds : Bytes) : ∃ t, readNat ds = readNat (stripped ds) * 10 ^ t ∧
    (stripped ds ≠ ds → 0 < t) := by
  have hsplit : stripped ds ++ ds.rtakeWhile (· == 48) = ds := List.rdropWhile_append_rtakeWhile
  obtain ⟨n, hn⟩ : ∃ n, ds.rtakeWhile (· == 48) = List.replicate n 48 := by
    refine ⟨_, List.eq_replicate_of_mem fun b hb => ?_⟩
    simpa using List.mem_rtakeWhile_imp hb
  rw [hn] at hsplit
  refine ⟨n, ?_, fun hne => ?_⟩
  · conv_lhs => rw [← hsplit]
    rw [readNat_append, readNat_zeros, List.length_replicate, Nat.add_zero]
  · rcases Nat.eq_zero_or_pos n with rfl | hpos
    · exact absurd (by simpa using hsplit) hne
    · exact hpos

theorem stripped_digits {ds : Bytes} (h : ∀ b ∈ ds, isDigit b = true) :
    ∀ b ∈ stripped ds, isDigit b = true :=
  fun b hb => h b ((List.rdropWhile_prefix _ _).subset hb)

theorem afterPoint_self {s : Bytes} (h : ∀ hne : s ≠ [], s.getLast hne ≠ 48) : afterPoint s = s := by
  unfold afterPoint
  split
  · rename_i r
    cases r with
    | nil => exact absurd rfl (h (by simp))
    | cons b r =>
      have hlast : ∀ hne : b :: r ≠ [], (b :: r).getLast hne ≠ 48 := by
        intro hne
        have := h (by simp)
        rwa [List.getLast_cons hne] at this
      rw [stripped_eq_self hlast]
  · exact stripped_eq_self h

theorem afterPoint_append (a : Bytes) {b : UInt8} (hb : b ≠ 48) (s : Bytes) :
    afterPoint (a ++ b :: s) = a ++ b :: stripped s := by
  have hkeep : stripped (b :: s) = b :: stripped s := stripped_keep fun _ => hb
  have hall : stripped (a ++ b :: s) = a ++ b :: stripped s := by
    rw [stripped_append a (by simp [hkeep]), hkeep]
  cases a with
  | nil =>
    unfold afterPoint
    split
    · rename_i he
      exact absurd (List.cons.inj he).1 hb
    · exact hall
  | cons c a =>
    by_cases hc : c = 48
    · subst hc
      rw [List.cons_append, afterPoint, stripped_append a (by simp [hkeep]), hkeep, List.cons_append]
    · unfold afterPoint
      split
      · rename_i he
        exact absurd (List.cons.inj he).1 hc
      · exact hall

/-! ## Doubles -/

theorem digits_noPoint {ds : Bytes} (h : ∀ b ∈ ds, isDigit b = true) : (46 : UInt8) ∉ ds := by
  intro hmem
  exact absurd (h 46 hmem) (by decide)

theorem expText_noPoint (e : Option Exponent) : (46 : UInt8) ∉ expText e := by
  cases e with
  | none => simp [expText]
  | some e =>
    have hd := digits_noPoint e.areDigits
    have hsign : (46 : UInt8) ∉ signText e.sign := by
      cases e.sign with
      | none => simp [signText]
      | some m => cases m <;> simp [signText]
    rcases e.isLetter with hl | hl <;> simp [expText, Exponent.text, hl, hsign, hd]

theorem int_noPoint (n : Numeral) : (46 : UInt8) ∉ (if n.neg then [45] else []) ++ n.int := by
  have hd := digits_noPoint n.intDigits
  cases n.neg <;> simp [hd]

/-- The loop on the text of a number. -/
theorem trim_text (n : Numeral) : trim n.text = match n.frac with
    | none => n.text
    | some ds => ((if n.neg then [45] else []) ++ n.int) ++ 46 :: afterPoint (ds ++ expText n.exp) := by
  unfold Numeral.text
  cases hf : n.frac with
  | none =>
    refine trim_noPoint ?_
    have h1 := int_noPoint n
    have h2 := expText_noPoint n.exp
    rw [fracText, List.nil_append, ← List.append_assoc]
    simp only [List.mem_append, not_or] at h1 ⊢
    exact ⟨h1, h2⟩
  | some ds =>
    rw [fracText, ← List.append_assoc, List.cons_append]
    exact trim_point (int_noPoint n) _

open Decimal

/-- The digits left of an exponent. -/
def dumpExp (d : Decimal) : Bytes :=
  if d.digits.length = 1 then gExp (d.point - 1) else stripped (gExp (d.point - 1))

theorem dumpExp_digits (d : Decimal) : ∀ b ∈ dumpExp d, isDigit b = true := by
  intro b hb
  unfold dumpExp at hb
  split at hb
  · exact gExp_digits _ b hb
  · exact stripped_digits (gExp_digits _) b hb

/-- A number as it stands in an answer. -/
def dumpLayout (neg : Bool) (d : Decimal) : Numeral :=
  if d.IsPlain then d.plain neg else d.scientific neg (dumpExp d) (dumpExp_digits d)

def dumpNumeral (x : Double) : Numeral :=
  if h : x.val = 0 then zeroNumeral else dumpLayout (decide (x.val < 0)) (x.decimal h)

/-- Without an exponent there is nothing to take, if the last digit is none of the zeros. -/
theorem trim_of_last {n : Numeral} (he : n.exp = none)
    (h : ∀ ds ∈ n.frac, ∀ hne : ds ≠ [], ds.getLast hne ≠ 48) : trim n.text = n.text := by
  rw [trim_text]
  split
  · rfl
  · rename_i ds hf
    rw [he, expText, List.append_nil, afterPoint_self (h ds hf)]
    simp [Numeral.text, hf, he, fracText, expText]

theorem trim_plain (neg : Bool) {d : Decimal} (h : d.s % 10 ≠ 0) :
    trim (d.plain neg).text = (d.plain neg).text := by
  have hlast : d.digits.getLast d.leading.2.1 ≠ 48 := by
    intro he
    rw [getLast_digits d.leading.1, d.readNat_digits] at he
    exact h he
  unfold plain
  split
  · exact trim_of_last rfl (by simp [integer])
  split
  · refine trim_of_last rfl ?_
    rintro _ ⟨⟩ hne
    rwa [List.getLast_drop]
  · refine trim_of_last rfl ?_
    rintro _ ⟨⟩ hne
    rwa [List.getLast_append_of_ne_nil _ d.leading.2.1]

theorem trim_scientific (neg : Bool) (d : Decimal) {es : Bytes} (hd : ∀ b ∈ es, isDigit b = true) :
    trim (d.scientific neg es hd).text =
      if d.digits.length = 1 then (d.scientific neg es hd).text
      else (d.scientific neg (stripped es) (stripped_digits hd)).text := by
  rw [trim_text]
  by_cases h1 : d.digits.length = 1
  · simp [scientific, h1]
  · have hsign : ∃ c, c ≠ 48 ∧ signText (some (decide (d.point - 1 < 0))) = [c] := by
      cases decide (d.point - 1 < 0)
      · exact ⟨43, by decide, rfl⟩
      · exact ⟨45, by decide, rfl⟩
    obtain ⟨c, hc, hsign⟩ := hsign
    have hafter : afterPoint (d.digits.drop 1 ++ 101 :: c :: es) =
        d.digits.drop 1 ++ 101 :: c :: stripped es := by
      rw [afterPoint_append _ (by decide), stripped_keep fun _ => hc]
    have hfrac : ∀ ds hds, (d.scientific neg ds hds).frac = some (d.digits.drop 1) :=
      fun _ _ => if_neg h1
    have hexp : ∀ ds hds, expText (d.scientific neg ds hds).exp = 101 :: c :: ds := by
      intro ds hds
      show 101 :: (signText (some (decide (d.point - 1 < 0))) ++ ds) = _
      rw [hsign]
      rfl
    simp only [if_neg h1, Numeral.text, hfrac, hexp, hafter, fracText]
    simp [scientific]

/-- mirrors src/include/Crow/include/crow/json.h:1898-1951 -/
def dumpDouble (x : Double) : Bytes := trim (gNumeral x).text

theorem dumpDouble_eq (x : Double) : dumpDouble x = (dumpNumeral x).text := by
  unfold dumpDouble gNumeral dumpNumeral
  split
  · rfl
  · rename_i h
    unfold gLayout dumpLayout
    split
    · exact trim_plain _ (gDecimal_last (abs_pos.mpr h))
    · rw [trim_scientific]
      unfold dumpExp
      split
      · simp [*]
      · simp [*]

/-- The loop shortens the exponent: there is one, a point in front of it, and a zero at its end. -/
def Cut (x : Double) : Prop :=
  ∃ h : x.val ≠ 0, ¬ (x.decimal h).IsPlain ∧ (x.decimal h).digits.length ≠ 1 ∧
    ((x.decimal h).point - 1) % 10 = 0

theorem stripped_gExp {X : ℤ} : stripped (gExp X) = gExp X ↔ X % 10 ≠ 0 := by
  have hne := gExp_ne_nil X
  have hlast := getLast_digits (gExp_digits X) hne
  rw [readNat_gExp] at hlast
  have hmod : X.natAbs % 10 = 0 ↔ X % 10 = 0 := by omega
  rw [ne_eq, ← hmod, ← hlast]
  constructor
  · intro h he
    have := List.rdropWhile_eq_self_iff.mp h hne
    simp [he] at this
  · exact fun h => stripped_eq_self fun _ => h

/-- The exponent is a tenth at most. -/
theorem readNat_stripped_gExp {X : ℤ} (h : X % 10 = 0) :
    10 * readNat (stripped (gExp X)) ≤ X.natAbs := by
  obtain ⟨t, hread, ht⟩ := readNat_stripped (gExp X)
  have hpos := ht fun he => stripped_gExp.mp he h
  rw [readNat_gExp] at hread
  have hpow : 10 ≤ 10 ^ t := Nat.le_self_pow hpos.ne' 10
  calc 10 * readNat (stripped (gExp X)) = readNat (stripped (gExp X)) * 10 := Nat.mul_comm _ _
    _ ≤ readNat (stripped (gExp X)) * 10 ^ t := Nat.mul_le_mul_left _ hpow
    _ = X.natAbs := hread.symm

/-- A double whose exponent is shortened reads as one with its point moved. -/
theorem dumpLayout_value (neg : Bool) {d : Decimal} (hp : ¬ d.IsPlain) (h1 : d.digits.length ≠ 1) :
    (dumpLayout neg d).value = signed neg (d.value *
      10 ^ ((if d.point - 1 < 0 then -(readNat (stripped (gExp (d.point - 1))) : ℤ)
        else readNat (stripped (gExp (d.point - 1)))) - (d.point - 1))) := by
  rw [dumpLayout, if_neg hp, scientific_value, dumpExp, if_neg h1, mul_assoc, Decimal.value, mul_assoc,
    ← zpow_add₀ (by norm_num), ← zpow_add₀ (by norm_num)]
  congr 3
  ring

theorem dumpLayout_of_not_cut (neg : Bool) {d : Decimal}
    (h : d.IsPlain ∨ d.digits.length = 1 ∨ (d.point - 1) % 10 ≠ 0) :
    (dumpLayout neg d).value = signed neg d.value := by
  have hgv := d.gLayout_value neg
  unfold gLayout at hgv
  unfold dumpLayout
  split
  · exact d.plain_value neg
  · rename_i hp
    rw [if_neg hp] at hgv
    have hexp : dumpExp d = gExp (d.point - 1) := by
      unfold dumpExp
      split
      · rfl
      · exact stripped_gExp.mpr ((h.resolve_left hp).resolve_left ‹_›)
    simpa only [hexp] using hgv

/-- **Which doubles read back.** -/
theorem reads_iff (x : Double) : nearest (dumpNumeral x).value = x.val ↔ ¬ Cut x := by
  unfold dumpNumeral
  split
  · rename_i h
    refine iff_of_true ?_ fun hcut => hcut.1 h
    rw [h]
    exact if_pos (by simp [zeroNumeral, Numeral.value, Numeral.fracValue, readNat])
  · rename_i h
    by_cases hcut : Cut x
    · refine iff_of_false ?_ (fun hn => hn hcut)
      obtain ⟨_, hp, h1, h10⟩ := hcut
      have hk := readNat_stripped_gExp h10
      rw [dumpLayout_value _ hp h1, nearest_signed]
      intro he
      refine nearest_shift h ?_ (signed_inj (he.trans (signed_abs x.val).symm))
      unfold IsPlain at hp
      split
      · omega
      · omega
    · refine iff_of_true ?_ hcut
      rw [dumpLayout_of_not_cut, decimal_reads]
      by_contra hnot
      push Not at hnot
      exact hcut ⟨h, hnot.1, hnot.2⟩

/-- Numbers of moderate size have no exponent. -/
theorem not_cut_of_size {x : Double} (h : x.val ≠ 0 → 1 / 1000 ≤ |x.val| ∧ |x.val| ≤ 10 ^ 16) :
    ¬ Cut x := by
  rintro ⟨hne, hp, _⟩
  obtain ⟨hmin, hmax⟩ := h hne
  obtain ⟨hlo, hhi⟩ := (x.decimal hne).value_bounds
  obtain ⟨hnear1, hnear2⟩ := abs_lt.mp (gDecimal_near (abs_pos.mpr hne))
  have hv : gDecimal |x.val| (abs_pos.mpr hne) = x.decimal hne := rfl
  rw [hv] at hnear1 hnear2
  refine hp ⟨?_, ?_⟩
  · by_contra hlt
    have hpow : (10 : ℚ) ^ (x.decimal hne).point ≤ 10 ^ (-4 : ℤ) :=
      zpow_le_zpow_right₀ (by norm_num) (by omega)
    norm_num at hpow
    linarith
  · by_contra hge
    have hpow : (10 : ℚ) ^ (17 : ℤ) ≤ 10 ^ ((x.decimal hne).point - 1) :=
      zpow_le_zpow_right₀ (by norm_num) (by omega)
    norm_num at hpow hmax
    linarith

theorem dumpExp_ne_nil {d : Decimal} (h : ¬ d.IsPlain) : dumpExp d ≠ [] := by
  unfold dumpExp
  split
  · exact gExp_ne_nil _
  · intro hnil
    obtain ⟨t, hread, _⟩ := readNat_stripped (gExp (d.point - 1))
    have hzero : readNat (stripped (gExp (d.point - 1))) = 0 := by
      rw [hnil]
      rfl
    rw [hzero, Nat.zero_mul, readNat_gExp] at hread
    unfold IsPlain at h
    omega

theorem tidy_dumpNumeral (x : Double) : Tidy (dumpNumeral x) := by
  unfold dumpNumeral
  split
  · exact tidy_zero
  · unfold dumpLayout
    split
    · exact tidy_plain _ _
    · exact tidy_scientific _ _ _ (dumpExp_ne_nil ‹_›)

/-! ## Values -/

mutual

/-- `dump()`, an object in the order it is walked in.
mirrors src/include/Crow/include/crow/json.h:1872-2050 -/
def dump : WValue → Bytes
  | .null => ascii "null"
  | .int i => intText i.toInt
  | .double x => dumpDouble x
  | .string s => dumpString s
  | .list l => 91 :: (dumpList true l ++ [93])
  | .object o => 123 :: (dumpMembers true o ++ [125])

def dumpList (first : Bool) : List WValue → Bytes
  | [] => []
  | x :: l => (if first then [] else [44]) ++ (dump x ++ dumpList false l)

def dumpMembers (first : Bool) : List (Bytes × WValue) → Bytes
  | [] => []
  | (k, x) :: o =>
    (if first then [] else [44]) ++ (dumpString k ++ 58 :: (dump x ++ dumpMembers false o))

end

theorem natText_noLeading {n : ℕ} (h : (natText n).head? = some 48) : natText n = [48] := by
  rcases Nat.eq_zero_or_pos n with h0 | hpos
  · rw [h0]
    rfl
  · exact absurd h (natText_head hpos)

/-- An integer, as it is written. -/
def intNumeral (i : Int32) : Numeral where
  neg := decide (i.toInt < 0)
  int := natText i.toInt.natAbs
  frac := none
  exp := none
  intDigits := natText_digits _
  intSome := natText_ne_nil _
  noLeading := natText_noLeading
  fracDigits := Decimal.no_fraction

theorem intNumeral_text (i : Int32) : (intNumeral i).text = intText i.toInt := by
  unfold Numeral.text intNumeral intText
  by_cases h : i.toInt < 0
  · simp [h, fracText, expText]
  · simp [h, fracText, expText]

theorem intNumeral_value (i : Int32) : (intNumeral i).value = i.toInt := by
  have hread : readNat (intNumeral i).int = i.toInt.natAbs := readNat_natText _
  unfold Numeral.value
  rw [hread]
  have habs : ((i.toInt.natAbs : ℕ) : ℚ) = |(i.toInt : ℚ)| := by
    rw [← Int.cast_abs, ← Int.natCast_natAbs, Int.cast_natCast]
  rw [habs]
  by_cases h : i.toInt < 0
  · have hq : (i.toInt : ℚ) < 0 := by exact_mod_cast h
    simp [intNumeral, Numeral.fracValue, Numeral.expValue, h, abs_of_neg hq]
  · have hq : (0 : ℚ) ≤ i.toInt := by exact_mod_cast not_lt.mp h
    simp [intNumeral, Numeral.fracValue, Numeral.expValue, h, abs_of_nonneg hq]

theorem tidy_intNumeral (i : Int32) : Tidy (intNumeral i) :=
  ⟨⟨by simp [intNumeral], by simp [intNumeral]⟩, by simp [intNumeral]⟩

mutual

/-- What is written, its numbers with their digits. -/
def out : WValue → Out
  | .null => .null
  | .int i => .number (intNumeral i) (tidy_intNumeral i).1
  | .double x => .number (dumpNumeral x) (tidy_dumpNumeral x).1
  | .string s => .string s
  | .list l => .array (outs l)
  | .object o => .object (outMembers o)

def outs : List WValue → List Out
  | [] => []
  | x :: l => out x :: outs l

def outMembers : List (Bytes × WValue) → List (Bytes × Out)
  | [] => []
  | (k, x) :: o => (k, out x) :: outMembers o

end

mutual

theorem dump_text (v : WValue) : dump v = (out v).text := by
  match v with
  | .null => rfl
  | .int i => exact (intNumeral_text i).symm
  | .double x => exact dumpDouble_eq x
  | .string s => exact dumpString_eq s
  | .list l =>
    have hl := dumpList_text l
    rw [dump, out, Out.text, hl.1]
  | .object o =>
    have ho := dumpMembers_text o
    rw [dump, out, Out.text, ho.1]

theorem dumpList_text (l : List WValue) : dumpList true l = Out.listText (outs l) ∧
    dumpList false l = if l = [] then [] else 44 :: Out.listText (outs l) := by
  match l with
  | [] => exact ⟨rfl, rfl⟩
  | x :: l =>
    have hx := dump_text x
    have hl := (dumpList_text l).2
    have htrue : dumpList true (x :: l) = Out.listText (outs (x :: l)) := by
      rw [dumpList, if_pos rfl, List.nil_append, hx, hl, outs]
      cases l with
      | nil => simp [outs, Out.listText]
      | cons y l => simp [outs, Out.listText]
    refine ⟨htrue, ?_⟩
    rw [if_neg (by simp), ← htrue, dumpList, dumpList]
    rfl

theorem dumpMembers_text (o : List (Bytes × WValue)) :
    dumpMembers true o = Out.membersText (outMembers o) ∧
    dumpMembers false o = if o = [] then [] else 44 :: Out.membersText (outMembers o) := by
  match o with
  | [] => exact ⟨rfl, rfl⟩
  | (k, x) :: o =>
    have hx := dump_text x
    have ho := (dumpMembers_text o).2
    have htrue : dumpMembers true ((k, x) :: o) = Out.membersText (outMembers ((k, x) :: o)) := by
      rw [dumpMembers, if_pos rfl, List.nil_append, hx, ho, outMembers, dumpString_eq]
      cases o with
      | nil => simp [outMembers, Out.membersText]
      | cons y o =>
        obtain ⟨k', y⟩ := y
        simp [outMembers, Out.membersText]
    refine ⟨htrue, ?_⟩
    rw [if_neg (by simp), ← htrue, dumpMembers, dumpMembers]
    rfl

end

end ExpenseTracker.L3.CrowDump
