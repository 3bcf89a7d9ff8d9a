import ExpenseTracker.Core.Bytes

/-!
# Hex text of salts and hashes

`toHex` prints two lower-case digits per byte. `fromHex` reads pairs of
characters with `strtol(_, NULL, 16)`, whatever they are: a character that
is no digit ends the number, and text without a number reads as 0.

* `fromHex_toHex`: `fromHex` inverts `toHex` on every byte string.
* `toHex_hexDigit`: hex text is made of `0-9a-f` only (so it has no `:`).
-/
namespace ExpenseTracker.L1.Hex

open ExpenseTracker.Core

/-- The digit of a number below 16, as `std::hex` prints it. -/
def hexChar (n : Nat) : UInt8 := if n < 10 then UInt8.ofNat (48 + n) else UInt8.ofNat (87 + n)

/-- mirrors src/src/auth_manager.cpp:17-21 -/
def toHex : Bytes → Bytes
  | [] => []
  | b :: data => hexChar (b.toNat / 16) :: hexChar (b.toNat % 16) :: toHex data

/-- The number the leading hex digits denote. -/
def readHex : Nat → Bytes → Nat
  | acc, [] => acc
  | acc, b :: s =>
    match hexVal b with
    | some v => readHex (16 * acc + v) s
    | none => acc

/-- `strtol(s.c_str(), NULL, 16)`: white space, a sign, then the digits. A
`0x` is read as the digit 0, which is the same on two characters. -/
def strtol16 (s : Bytes) : Int :=
  match (cStr s).dropWhile isSpace with
  | 45 :: t => -(readHex 0 t : Int)
  | 43 :: t => readHex 0 t
  | t => readHex 0 t

/-- mirrors src/src/auth_manager.cpp:24-32 -/
def fromHex : Bytes → Bytes
  | [] => []
  | [a] => [UInt8.ofInt (strtol16 [a])]
  | a :: b :: hex => UInt8.ofInt (strtol16 [a, b]) :: fromHex hex

theorem hexVal_hexChar {n : Nat} (h : n < 16) : hexVal (hexChar n) = some n := by
  have key : ∀ n, n < 16 → hexVal (hexChar n) = some n := by decide
  exact key n h

/-- The cast of a `long` in byte range to `unsigned char`. -/
theorem ofInt_toNat (b : UInt8) : UInt8.ofInt (b.toNat : Int) = b := by
  have hb := b.toNat_lt
  apply UInt8.toNat_inj.mp
  unfold UInt8.ofInt
  rw [UInt8.toNat_ofNat']
  omega

/-- A hex digit is no NUL, no space and no sign. -/
theorem hexChar_plain {n : Nat} (h : n < 16) :
    hexChar n ≠ 0 ∧ isSpace (hexChar n) = false ∧ hexChar n ≠ 45 ∧ hexChar n ≠ 43 := by
  have key : ∀ n, n < 16 →
      hexChar n ≠ 0 ∧ isSpace (hexChar n) = false ∧ hexChar n ≠ 45 ∧ hexChar n ≠ 43 := by
    decide
  exact key n h

/-- Two hex digits read as the byte they print. -/
theorem strtol16_pair {m n : Nat} (hm : m < 16) (hn : n < 16) :
    strtol16 [hexChar m, hexChar n] = (16 * m + n : Nat) := by
  obtain ⟨m0, msp, mneg, mpos⟩ := hexChar_plain hm
  obtain ⟨n0, -, -, -⟩ := hexChar_plain hn
  have hc : cStr [hexChar m, hexChar n] = [hexChar m, hexChar n] :=
    cStr_of_noNul (by simp [m0.symm, n0.symm])
  have hd : [hexChar m, hexChar n].dropWhile isSpace = [hexChar m, hexChar n] := by
    simp [msp]
  unfold strtol16
  rw [hc, hd]
  split
  · rename_i t he; exact absurd (List.cons.inj he).1 mneg
  · rename_i t he; exact absurd (List.cons.inj he).1 mpos
  · simp [readHex, hexVal_hexChar hm, hexVal_hexChar hn]

/-- `fromHex` inverts `toHex`, zero-padded bytes included. -/
theorem fromHex_toHex (data : Bytes) : fromHex (toHex data) = data := by
  induction data with
  | nil => rfl
  | cons b data ih =>
    have hb := b.toNat_lt
    rw [toHex, fromHex, ih, strtol16_pair (by omega) (Nat.mod_lt _ (by decide)),
      show 16 * (b.toNat / 16) + b.toNat % 16 = b.toNat by omega, ofInt_toNat]

theorem toHex_injective : Function.Injective toHex := fun a b h => by
  rw [← fromHex_toHex a, h, fromHex_toHex]

theorem toHex_hexDigit {data : Bytes} {x : UInt8} (h : x ∈ toHex data) :
    ∃ n, n < 16 ∧ x = hexChar n := by
  induction data with
  | nil => simp [toHex] at h
  | cons b data ih =>
    have hb := b.toNat_lt
    simp only [toHex, List.mem_cons] at h
    rcases h with rfl | rfl | h
    · exact ⟨_, by omega, rfl⟩
    · exact ⟨_, Nat.mod_lt _ (by decide), rfl⟩
    · exact ih h

theorem toHex_noColon (data : Bytes) : (58 : UInt8) ∉ toHex data := by
  intro h
  obtain ⟨n, hn, he⟩ := toHex_hexDigit h
  have key : ∀ n, n < 16 → (58 : UInt8) ≠ hexChar n := by decide
  exact key n hn he

end ExpenseTracker.L1.Hex
