import Mathlib.Data.List.TakeWhile
import Mathlib.Data.List.Basic

/-!
# Byte strings

A `std::string` is a list of bytes. `find`, `substr` and `cStr` are the
library calls the program makes on them; `natText` and `intText` are
`std::to_string` on integers.

Results:
* `find_split`, `find_of_split`: `s.find(c)` is the length of the part of `s`
  before the first `c`.
* `readNat_natText`: the decimal text of a number reads back as the number.
* `natText_digit`: it is made of digits only, so of no byte a parser stops at.
* `intText_injective`: different integers have different texts.
-/
namespace ExpenseTracker.Core

abbrev Bytes := List UInt8

/-- The bytes of an ASCII literal. -/
def ascii (s : String) : Bytes := s.toList.map fun c => UInt8.ofNat c.toNat

/-- `s.c_str()` handed to a C function: the bytes before the first NUL. -/
def cStr (s : Bytes) : Bytes := s.takeWhile (· ≠ 0)

/-- `isspace` in the C locale. -/
def isSpace (b : UInt8) : Bool := b == 32 || decide (9 ≤ b ∧ b ≤ 13)

/-- The value of a hex digit of either case. -/
def hexVal (b : UInt8) : Option ℕ :=
  if 48 ≤ b ∧ b ≤ 57 then some (b.toNat - 48)
  else if 97 ≤ b ∧ b ≤ 102 then some (b.toNat - 87)
  else if 65 ≤ b ∧ b ≤ 70 then some (b.toNat - 55)
  else none

/-- `s.find(c, pos)`; `none` is `npos`. -/
def find (s : Bytes) (c : UInt8) (pos : Nat) : Option Nat :=
  ((s.drop pos).findIdx? (· == c)).map (pos + ·)

/-- `s.substr(pos)`. -/
def substrFrom (s : Bytes) (pos : Nat) : Bytes := s.drop pos

/-- `s.substr(pos, len)`. -/
def substr (s : Bytes) (pos len : Nat) : Bytes := (s.drop pos).take len

theorem cStr_of_noNul {s : Bytes} (h : (0 : UInt8) ∉ s) : cStr s = s := by
  refine List.takeWhile_eq_self_iff.mpr fun x hx => ?_
  simpa using fun he : x = 0 => h (he ▸ hx)

theorem noNul_cStr (s : Bytes) : (0 : UInt8) ∉ cStr s := by
  intro h
  have := List.mem_takeWhile_imp h
  simp at this

theorem cStr_append {s t : Bytes} (h : (0 : UInt8) ∉ s) : cStr (s ++ t) = s ++ cStr t := by
  refine List.takeWhile_append_of_pos fun x hx => ?_
  simpa using fun he : x = 0 => h (he ▸ hx)

/-! ## Searching -/

theorem findIdx?_split (s : Bytes) (c : UInt8) :
    s.findIdx? (· == c) = if c ∈ s then some (s.takeWhile (· ≠ c)).length else none := by
  induction s with
  | nil => rfl
  | cons b s ih =>
    by_cases hb : b = c
    · subst hb; simp [List.findIdx?_cons]
    · have hne : ¬ c = b := fun h => hb h.symm
      simp only [List.findIdx?_cons, beq_iff_eq, hb, if_false, ih, List.mem_cons, hne, false_or,
        List.takeWhile_cons, ne_eq, not_false_eq_true, decide_true, if_true]
      split <;> simp

theorem takeWhile_ne_append {a b : Bytes} {c : UInt8} (h : c ∉ a) :
    (a ++ c :: b).takeWhile (· ≠ c) = a := by
  rw [List.takeWhile_append_of_pos fun x hx => by simpa using fun he : x = c => h (he ▸ hx)]
  simp

/-- `find` on a text whose first `c` is known. -/
theorem find_of_split {a b : Bytes} {c : UInt8} (h : c ∉ a) :
    find (a ++ c :: b) c 0 = some a.length := by
  rw [find, List.drop_zero, findIdx?_split, if_pos (by simp), takeWhile_ne_append h]
  simp

/-- `find` from just behind a known prefix. -/
theorem find_of_split_from {p a b : Bytes} {c : UInt8} (h : c ∉ a) :
    find (p ++ (a ++ c :: b)) c p.length = some (p.length + a.length) := by
  rw [find, List.drop_left, findIdx?_split, if_pos (by simp), takeWhile_ne_append h]
  simp

theorem find_none {s : Bytes} {c : UInt8} (h : c ∉ s) : find s c 0 = none := by
  rw [find, List.drop_zero, findIdx?_split, if_neg h]; rfl

/-- A byte that occurs splits the text at its first occurrence. -/
theorem exists_split {s : Bytes} {c : UInt8} (h : c ∈ s) :
    ∃ a b, s = a ++ c :: b ∧ c ∉ a := by
  obtain ⟨a, b, he, hn⟩ := List.eq_append_cons_of_mem h
  exact ⟨a, b, he, hn⟩

/-- Nothing behind a NUL arrives. -/
theorem cStr_append_of_nul {s : Bytes} (h : (0 : UInt8) ∈ s) (t : Bytes) :
    cStr (s ++ t) = cStr s := by
  obtain ⟨a, b, rfl, ha⟩ := exists_split h
  rw [List.append_assoc, List.cons_append]
  exact (takeWhile_ne_append ha).trans (takeWhile_ne_append ha).symm

/-! ## Decimal text -/

/-- The byte of an ASCII character. -/
def byteOf (c : Char) : UInt8 := UInt8.ofNat c.toNat

/-- `std::to_string` of a non-negative number. -/
def natText (n : Nat) : Bytes := (Nat.toDigits 10 n).map byteOf

/-- `std::to_string` of an integer. -/
def intText (i : Int) : Bytes := if i < 0 then 45 :: natText i.natAbs else natText i.natAbs

/-- `'0'..'9'`. -/
def isDigit (b : UInt8) : Bool := decide (48 ≤ b ∧ b ≤ 57)

/-- The number a digit string denotes. -/
def readNat (s : Bytes) : Nat := s.foldl (fun acc b => 10 * acc + (b.toNat - 48)) 0

theorem byteOf_toNat {c : Char} (h : c.toNat < 256) : (byteOf c).toNat = c.toNat := by
  simp [byteOf, UInt8.toNat_ofNat', Nat.mod_eq_of_lt h]

theorem toNat_lt_of_isDigit {c : Char} (h : c.isDigit = true) : 48 ≤ c.toNat ∧ c.toNat ≤ 57 := by
  simp only [Char.isDigit, Bool.and_eq_true, decide_eq_true_eq, ge_iff_le, UInt32.le_iff_toNat_le] at h
  exact ⟨h.1, h.2⟩

theorem natText_ne_nil (n : Nat) : natText n ≠ [] := by
  simp [natText, Nat.toDigits_ne_nil]

theorem natText_digit {n : Nat} {b : UInt8} (h : b ∈ natText n) : isDigit b = true := by
  obtain ⟨c, hc, rfl⟩ := List.mem_map.mp h
  have hd := toNat_lt_of_isDigit (Nat.isDigit_of_mem_toDigits (by decide) (by decide) hc)
  have hb := byteOf_toNat (c := c) (by omega)
  simp only [isDigit, decide_eq_true_eq, UInt8.le_iff_toNat_le, hb]
  exact hd

theorem readNat_map {l : List Char} (h : ∀ c ∈ l, c.isDigit = true) (acc : Nat) :
    (l.map byteOf).foldl (fun acc b => 10 * acc + (b.toNat - 48)) acc = Nat.ofDigitChars 10 l acc := by
  induction l generalizing acc with
  | nil => rfl
  | cons c l ih =>
    have hc := toNat_lt_of_isDigit (h c List.mem_cons_self)
    rw [List.map_cons, List.foldl_cons, Nat.ofDigitChars_cons, byteOf_toNat (by omega)]
    exact ih (fun x hx => h x (List.mem_cons_of_mem _ hx)) _

/-- The decimal text of a number reads back as the number. -/
theorem readNat_natText (n : Nat) : readNat (natText n) = n := by
  unfold readNat natText
  rw [readNat_map fun c hc => Nat.isDigit_of_mem_toDigits (by decide) (by decide) hc]
  exact Nat.ofDigitChars_ten_toDigits

/-- No decimal text starts with a sign. -/
theorem natText_ne_neg (n m : Nat) : natText n ≠ 45 :: natText m := by
  intro h
  have : (45 : UInt8) ∈ natText n := h ▸ List.mem_cons_self
  exact absurd (natText_digit this) (by decide)

theorem natText_injective : Function.Injective natText := fun a b h => by
  rw [← readNat_natText a, h, readNat_natText]

theorem intText_injective : Function.Injective intText := by
  intro a b h
  unfold intText at h
  split at h <;> split at h
  · have := natText_injective (List.cons.inj h).2
    omega
  · exact absurd h.symm (natText_ne_neg _ _)
  · exact absurd h (natText_ne_neg _ _)
  · have := natText_injective h
    omega

end ExpenseTracker.Core
